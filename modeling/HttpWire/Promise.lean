import HttpWire.Error

/-! Promises of a result that comes from elsewhere. -/
namespace HttpWire

/-- Whoever holds the other end settles a promise once, or gives it up. -/
inductive Promise (α : Type) where
  | pending
  | settled (result : Except Error α)
  | abandoned

namespace Promise
variable {α : Type}

/-- Settle a promise. Only the first result counts. -/
def settle (result : Except Error α) : Promise α → Promise α
  | pending => settled result
  | p => p

/-- The other end goes away. -/
def abandon : Promise α → Promise α
  | pending => abandoned
  | p => p

/-- The result, once there is one. A promise that was given up is canceled. -/
def poll : Promise α → Option (Except Error α)
  | pending => none
  | settled result => some result
  | abandoned => some (.error .canceled)

end Promise
end HttpWire
