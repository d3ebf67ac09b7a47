/-
  Verdure.Nesting

  The tree structure of a word in which some symbols open and close branches: the nesting
  level at each symbol, the partner of each bracket, and whether a deeper leaf follows.
-/
import Verdure.Grammar.Production

namespace Verdure

/-- What a symbol does to the nesting. -/
inductive Role where
  | opening
  | closing
  | leaf
  | other
  deriving DecidableEq, Repr

namespace Role

/-- The role of a symbol.  A symbol that opens does nothing else, and a leaf does not
    close. -/
def of (isPush isPop : Char → Bool) (leafMarker symbol : Char) : Role :=
  if isPush symbol then .opening
  else if symbol = leafMarker then .leaf
  else if isPop symbol then .closing
  else .other

/-- The change of level over a symbol. -/
def change : Role → Int
  | .opening => 1
  | .closing => -1
  | .leaf | .other => 0

end Role

/-- The structure of a word, by position. -/
structure Nesting where
  /-- The level before each symbol, and the level after the last one. -/
  levels : Array Int
  /-- The matching bracket of each bracket that has one. -/
  partners : Array (Option Nat)
  /-- Whether a leaf follows at a level deeper than the one after the symbol, before the
      level falls to zero. -/
  deeperLeaf : Array Bool
  deriving DecidableEq

namespace Nesting

/-! ## Levels and partners -/

/-- What is known of a word up to some symbol. -/
structure Scan where
  level : Int
  /-- The open brackets without a partner so far, latest first. -/
  unmatched : List Nat
  levels : Array Int
  partners : Array (Option Nat)

namespace Scan

/-- The scan before the first symbol. -/
def start (level : Int) : Scan := ⟨level, [], #[level], #[]⟩

/-- The scan after one more symbol. -/
def step (scan : Scan) (role : Role) : Scan :=
  let position := scan.partners.size
  let level := scan.level + role.change
  let levels := scan.levels.push level
  match role, scan.unmatched with
  | .opening, unmatched => ⟨level, position :: unmatched, levels, scan.partners.push none⟩
  | .closing, opened :: unmatched =>
      ⟨level, unmatched, levels,
        (scan.partners.setIfInBounds opened (some position)).push (some opened)⟩
  | _, unmatched => ⟨level, unmatched, levels, scan.partners.push none⟩

end Scan

/-! ## Leaves ahead -/

/-- What is known of a word from some symbol on. -/
structure Ahead where
  /-- The highest level of a leaf that is reached before the level falls to zero. -/
  highest : Option Int := none
  /-- For each symbol, whether a deeper leaf follows. -/
  deeper : List Bool := []

/-- What is known once one more symbol is put in front, given the level after it.  Nothing
    beyond a symbol after which the level is not positive counts. -/
def Ahead.cons (role : Role) (after : Int) (ahead : Ahead) : Ahead :=
  let beyond := if after ≤ 0 then none else ahead.highest
  { highest :=
      if role = .leaf then some (beyond.elim after (max after)) else beyond
    deeper := ahead.highest.any (after < ·) :: ahead.deeper }

/-! ## The structure of a word -/

/-- The structure of a word of roles, `level` being the level before the first. -/
def ofRoles (level : Int) (roles : List Role) : Nesting :=
  let scan := roles.foldl Scan.step (.start level)
  let ahead :=
    (roles.zip (scan.levels.toList.drop 1)).foldr (fun (role, after) => Ahead.cons role after) {}
  ⟨scan.levels, scan.partners, ahead.deeper.toArray⟩

/-- The structure of a word. -/
def analyze (isPush isPop : Char → Bool) (leafMarker : Char) (initialDepth : Nat) (word : Word) :
    Nesting :=
  ofRoles initialDepth (word.map (Role.of isPush isPop leafMarker))

/-- The number of symbols. -/
def size (nesting : Nesting) : Nat := nesting.partners.size

/-- The level at which the symbol at `i` stands. -/
def level? (nesting : Nesting) (i : Nat) : Option Int :=
  if i < nesting.size then nesting.levels[i]? else none

/-- The level after the last symbol. -/
def finalLevel (nesting : Nesting) : Int := nesting.levels.back?.getD 0

/-- The partner of the bracket at `i`. -/
def partner? (nesting : Nesting) (i : Nat) : Option Nat := nesting.partners[i]?.join

/-- A leaf follows the symbol at `i` at a level deeper than the one after that symbol,
    before the level falls to zero. -/
def deeperLeafAhead (nesting : Nesting) (i : Nat) : Bool := nesting.deeperLeaf[i]?.getD false

/-- The word ends at the level it starts at and never falls below it. -/
def isBalanced (nesting : Nesting) : Bool :=
  match nesting.levels[0]? with
  | none => true
  | some start => nesting.finalLevel == start && nesting.levels.all (start ≤ ·)

end Nesting

end Verdure
