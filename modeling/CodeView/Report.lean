/-!
# Error reports

An error with the causes behind it, outermost first. `Report.text` writes the message, and below it
the causes: indented by four spaces if there is one, numbered if there are several.
-/

namespace CodeView

/-- An error and what caused it. -/
structure Report where
  message : String
  causes : List String
  deriving DecidableEq, Repr

namespace Report

/-- A report as the cause of another. -/
def context (r : Report) (message : String) : Report :=
  ⟨message, r.message :: r.causes⟩

/-- The lines of a cause, the first after `lead` and the others after `indent`. -/
def indented (lead indent cause : String) : String :=
  lead ++ ("\n" ++ indent).intercalate (cause.splitOn "\n")

/-- The number of a cause, in five columns. -/
def numberLead (n : Nat) : String :=
  let digits := toString n
  String.ofList (List.replicate (5 - digits.length) ' ') ++ digits ++ ": "

/-- The causes with their numbers. -/
def numbered : Nat → List String → List String
  | _, [] => []
  | n, cause :: rest => indented (numberLead n) "       " cause :: numbered (n + 1) rest

/-- The lines below the message. -/
def causeLines : List String → List String
  | [] => []
  | [cause] => ["", "Caused by:", indented "    " "    " cause]
  | causes => "" :: "Caused by:" :: numbered 0 causes

/-- The report as it is shown. -/
def text (r : Report) : String :=
  "\n".intercalate (r.message :: causeLines r.causes)

end Report

end CodeView
