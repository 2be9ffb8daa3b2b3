import QueryPlanner.Text

/-!
Data trees: plain values built from lists and from entries under keys. Two trees are structurally equal if they
agree up to the order of entries, leaving out the locations and the entries that hold nothing.
-/

namespace QueryPlanner

inductive Tree where
  | undefined
  | null
  | boolean (b : Bool)
  | number (n : Rat)
  | text (text : Text)
  | array (items : List Tree)
  | object (entries : List (Text × Tree))
  deriving Inhabited

namespace Tree

def ofNat (n : Nat) : Tree := number n

def ofTexts (texts : List Text) : Tree := array (texts.map text)

def isUndefined : Tree → Bool
  | undefined => true
  | _ => false

def locationKey : Text := "loc"

def significant (entries : List (Text × Tree)) : List (Text × Tree) :=
  entries.filter fun entry => entry.1 ≠ locationKey && !entry.2.isUndefined

mutual

def equals : Tree → Tree → Bool
  | undefined, undefined => true
  | null, null => true
  | boolean a, boolean b => a == b
  | number a, number b => a == b
  | text a, text b => a == b
  | array a, array b => equalItems a b
  | object a, object b => (significant a).length == (significant b).length && matchEntries a b
  | _, _ => false
termination_by structural a => a

def equalItems : List Tree → List Tree → Bool
  | [], [] => true
  | a :: as, b :: bs => equals a b && equalItems as bs
  | _, _ => false
termination_by structural as => as

/-- Each significant entry of the first list has an equal in the second. -/
def matchEntries : List (Text × Tree) → List (Text × Tree) → Bool
  | [], _ => true
  | (key, a) :: as, bs =>
    (key = locationKey || a.isUndefined || (bs.lookup key).any (equals a)) && matchEntries as bs
termination_by structural as => as

end

def entry? (key : Text) : Tree → Option Tree
  | object entries => entries.lookup key
  | _ => none

def ofEntries (entries : List (Text × Option Tree)) : Tree :=
  object (entries.filterMap fun entry => entry.2.map (entry.1, ·))

end Tree

end QueryPlanner
