/-! # Values written as constructor terms

A `Form` is a value seen as a named constructor with parts. It has two layouts: `Form.line`
keeps the whole term on one line, `Form.rows` gives every part a row of its own, indented by
four blanks and closed by a comma. All texts of values in this library are forms.
-/
namespace SharedBus

inductive Form
  | word (text : String)
  | tuple (head : String) (parts : List Form)
  | record (head : String) (parts : List Form)
  /-- A labelled part; it stands only among the parts of a record. -/
  | field (label : String) (value : Form)

namespace Form

def number (n : Nat) : Form := .word n.repr

mutual

/-- The term on one line. -/
def line : Form → String
  | .word text => text
  | .tuple head parts => head ++ "(" ++ ", ".intercalate (lines parts) ++ ")"
  | .record head parts => head ++ " \x7b " ++ ", ".intercalate (lines parts) ++ " \x7d"
  | .field label value => label ++ ": " ++ line value

def lines : List Form → List String
  | [] => []
  | part :: rest => line part :: lines rest

end

/-- The rows of one part inside its parent: all indented, the last one closed by a comma. -/
def nested : List String → List String
  | [] => []
  | [row] => ["    " ++ row ++ ","]
  | row :: rest => ("    " ++ row) :: nested rest

/-- Puts a label in front of the first row. -/
def labelled (label : String) : List String → List String
  | [] => []
  | row :: rest => (label ++ ": " ++ row) :: rest

mutual

/-- The rows of the term with one part a row. -/
def rows : Form → List String
  | .word text => [text]
  | .tuple head parts => (head ++ "(") :: nestedRows parts ++ [")"]
  | .record head parts => (head ++ " \x7b") :: nestedRows parts ++ ["\x7d"]
  | .field label value => labelled label (rows value)

def nestedRows : List Form → List String
  | [] => []
  | part :: rest => nested (rows part) ++ nestedRows rest

end

def block (form : Form) : String := "\n".intercalate form.rows

end Form

/-- Both layouts of one value. -/
structure Shown where
  line : String
  block : String
deriving DecidableEq, Repr

def Form.shown (form : Form) : Shown := ⟨form.line, form.block⟩

/-- An optional value as a term. -/
def Form.ofOption {α : Type} (form : α → Form) : Option α → Form
  | none => .word "None"
  | some a => .tuple "Some" [form a]

end SharedBus
