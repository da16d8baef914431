/-!
# Stamps

Nodes and the structures inside them are told apart by a stamp, not by what they hold: two handles
are the same instance when their stamps are equal. Whoever creates an instance draws a fresh stamp,
so creation is an action of a monad that can supply stamps. `Supply` is the least such monad, a
counter of the stamps drawn so far.
-/

namespace ExprTree

/-- The identity of an instance. -/
abbrev Stamp := Nat

/-- A monad in which fresh stamps can be drawn. -/
class MonadStamp (m : Type → Type) where
  /-- Draws a stamp that no instance has yet. -/
  fresh : m Stamp

export MonadStamp (fresh)

/-- The next stamp is the only state. -/
abbrev Supply := StateM Stamp

/-- A supply hands out the next stamp and counts on. -/
instance : MonadStamp Supply where
  fresh := fun next => (next, next + 1)

/-- More state leaves the supply as it is. -/
instance {m : Type → Type} {σ : Type} [Monad m] [MonadStamp m] : MonadStamp (StateT σ m) where
  fresh := StateT.lift fresh

/-- Early exit leaves the supply as it is. -/
instance {m : Type → Type} {ε : Type} [Monad m] [MonadStamp m] : MonadStamp (ExceptT ε m) where
  fresh := ExceptT.lift fresh

end ExprTree
