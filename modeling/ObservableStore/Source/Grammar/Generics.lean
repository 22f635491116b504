import ObservableStore.Source.Grammar.Types

/-!
# Generic parameters and where clauses
-/

namespace ObservableStore.Source.Grammar

open Reader Ahead

/-- What matters of a list of generic parameters. -/
structure GenericsForm where
  /-- Whether there is a list, even an empty one. -/
  present : Bool
  /-- Whether it names a parameter. -/
  named : Bool

/-- A list of generic parameters, which may be absent. An empty one is not written. -/
def generics (r : Rules) : Reader GenericsForm := do
  if !(← ahead (isOp "<")) then return ⟨false, false⟩
  let (found, pieces) ← angleList id (r.parameter true)
  unless found.isEmpty do writeAngles (Piece.lifetimesFirst pieces)
  return ⟨true, !found.isEmpty⟩

/-- Whether the constraints of a where clause end here. -/
def endsConstraints (ts : List Token) : Bool :=
  ts.isEmpty || isGroup .brace ts || isOp "," ts || isOp ";" ts || isColon ts || isOp "=" ts

/-- Whether the bounds of a lifetime end here. -/
def endsLifetimes (ts : List Token) : Bool :=
  ts.isEmpty || isGroup .brace ts || isOp "," ts || isOp ";" ts || isOp ":" ts || isOp "=" ts

/-- A constraint on a lifetime or on a type. -/
def constraint (r : Rules) : Reader Unit := do
  if ← ahead (fun ts => isLifetime ts && isOp ":" (skip ts)) then
    lifetime
    op ":"
    lifetimesUntil endsLifetimes
  else
    if ← ahead (isWord "for") then binder r
    ignoring (r.type true)
    op ":"
    looseBoundsUntil (boundOf r ⟨false, true⟩) endsConstraints

/-- A where clause, which may be absent; whether it is there. One without constraints is not
written. -/
def whereClause (r : Rules) : Reader Bool := do
  let found ← unwritten (optWord "where")
  unless found do return false
  require (fun ts => !isGenericList ts)
  let constraints ← tokensOf <| rounds do
    if ← ahead endsConstraints then return false
    constraint r
    optOp ","
  unless constraints.isEmpty do write (.word "where" :: constraints)
  return true

end ObservableStore.Source.Grammar
