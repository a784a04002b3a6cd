import Calculator.Event

/-!
# What is printed

Events that print go to the user, those for the log do not. An evaluation leaves only entries for the log;
its result is printed by those who ask for it.
-/

set_option autoImplicit false

namespace Calculator.Event

/-- Whether an event prints something. -/
def isPrinted : Event → Bool
  | .out _ | .err _ => true
  | .log _ => false

/-- The events that print, in their order. -/
def printed (events : List Event) : List Event := events.filter isPrinted

/-- No events print nothing. -/
@[simp] theorem printed_nil : printed [] = [] := rfl

/-- What two lists of events print adds up. -/
@[simp] theorem printed_append (first second : List Event) :
    printed (first ++ second) = printed first ++ printed second := List.filter_append ..

/-- Text for the user is printed. -/
@[simp] theorem printed_cons_out (text : String) (events : List Event) :
    printed (.out text :: events) = .out text :: printed events := rfl

/-- Text for the error output is printed. -/
@[simp] theorem printed_cons_err (text : String) (events : List Event) :
    printed (.err text :: events) = .err text :: printed events := rfl

/-- An entry for the log is not printed. -/
@[simp] theorem printed_cons_log (entry : LogEntry) (events : List Event) :
    printed (.log entry :: events) = printed events := rfl

/-- What the events for some items print is what those for each of them print. -/
theorem printed_flatMap {α : Type} (f : α → List Event) (l : List α) :
    printed (l.flatMap f) = l.flatMap fun a => printed (f a) := by
  induction l with
  | nil => rfl
  | cons a l ih => simp [ih]

/-- The log of an evaluation is not printed. -/
@[simp] theorem printed_ofEvaluation (room : Nat) (text : String) : printed (ofEvaluation room text) = [] := by
  simp [printed, ofEvaluation, isPrinted]

/-! ## The two outputs -/

end Calculator.Event
