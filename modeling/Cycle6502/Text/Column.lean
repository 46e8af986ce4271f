/-! Columns of a fixed least width, and highlighted text for terminals. -/

set_option autoImplicit false

namespace Cycle6502.Text

def left (width : Nat) (text : String) : String :=
  text ++ String.ofList (List.replicate (width - text.length) ' ')

def right (width : Nat) (text : String) : String :=
  String.ofList (List.replicate (width - text.length) ' ') ++ text

inductive Highlight where
  | red
  | green
  | yellow
  | dimmed
  deriving DecidableEq, Repr

def Highlight.codes : Highlight → String × String
  | .red => ("31", "39")
  | .green => ("32", "39")
  | .yellow => ("33", "39")
  | .dimmed => ("2", "0")

/-- Text between the sequences that turn a rendering on and off, also when it is empty. -/
def Highlight.apply (h : Highlight) (text : String) : String :=
  "\x1b[" ++ h.codes.1 ++ "m" ++ text ++ "\x1b[" ++ h.codes.2 ++ "m"

end Cycle6502.Text
