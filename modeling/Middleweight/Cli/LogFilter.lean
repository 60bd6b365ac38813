/-!
# Log filters

Which log messages are shown. Verbosity wins over the environment, and the environment over the
configuration.
-/

namespace Middleweight.LogFilter

/-- The filter when nothing else is said. -/
def fallback : String := "warn"

/-- The filter directive for a verbosity, the environment's directive and the configured one. -/
def directive (verbosity : Nat) (environment configured : Option String) : String :=
  match verbosity with
  | 0 => ((environment.filter (· ≠ "")).or configured).getD fallback
  | 1 => "mwj_core=debug,mwj_cli=debug"
  | _ => "mwj_core=trace,mwj_cli=trace"

/-- Any verbosity overrides the environment and the configuration. -/
theorem directive_of_pos {n : Nat} (h : 0 < n) (e c e' c' : Option String) :
    directive n e c = directive n e' c' := by
  match n, h with
  | 1, _ => rfl
  | _ + 2, _ => rfl

/-- An empty directive of the environment counts as none. -/
theorem directive_env_empty (c : Option String) : directive 0 (some "") c = c.getD fallback := by
  simp [directive, Option.filter]

end Middleweight.LogFilter
