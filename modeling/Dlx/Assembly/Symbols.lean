import Dlx.Source.Line

/-!
# Symbol tables

The labels of one file with the addresses they stand for. A table is built in one sweep over the
placed lines of a file, so that a label may be used in front of its definition; a label that is
defined more than once stands for the last of its addresses.
-/

namespace Dlx

/-- Labels, written with their colon, and their addresses. Every label is listed once. -/
structure SymbolTable where
  entries : List (Bytes × UInt32)
  deriving DecidableEq, Repr

namespace SymbolTable

def empty : SymbolTable := ⟨[]⟩

def size (t : SymbolTable) : Nat := t.entries.length

/-- Defines a label, in the place of an earlier definition. -/
def insert (t : SymbolTable) (label : Bytes) (address : UInt32) : SymbolTable :=
  ⟨t.entries.filter (fun e => e.1 != label) ++ [(label, address)]⟩

def find? (t : SymbolTable) (label : Bytes) : Option UInt32 :=
  t.entries.lookup label

/-- The address of the label that is used as `name`, without its colon. -/
def resolve? (t : SymbolTable) (name : Bytes) : Option UInt32 :=
  t.find? (name ++ utf8 ":")

/-- The labels in byte order. -/
def sorted (t : SymbolTable) : List (Bytes × UInt32) :=
  t.entries.mergeSort (fun a b => Bytes.le a.1 b.1)

/-- The labels that a line defines: its first token, and then also its second one. -/
def labelsOf (line : Line) : List Bytes :=
  (line.tokens.take 2).takeWhile isLabel

def addLine (t : SymbolTable) (line : Line) : SymbolTable :=
  (labelsOf line).foldl (fun t label => t.insert label line.address) t

def ofLines (lines : List Line) : SymbolTable :=
  lines.foldl addLine empty

end SymbolTable

end Dlx
