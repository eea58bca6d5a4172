import UnitSheet.NameMap
import UnitSheet.Quantity

set_option autoImplicit false

namespace UnitSheet

structure Owned where
  value : Quantity
  owner : String

abbrev Store := NameMap Owned

namespace Store

def define (s : Store) (name : String) (value : Quantity) (owner : String) : Store :=
  s.set name ⟨value, owner⟩

def value? (s : Store) (name : String) : Option Quantity := (s.get? name).map Owned.value

def owner? (s : Store) (name : String) : Option String := (s.get? name).map Owned.owner

def ownedBy (s : Store) (owner : String) : List String :=
  (s.entries.filter fun e => e.2.owner == owner).map Prod.fst

def notOwnedBy (s : Store) (owner : String) : List String :=
  (s.entries.filter fun e => e.2.owner != owner).map Prod.fst

def clearOwner (s : Store) (owner : String) : Store :=
  s.filter fun _ entry => entry.owner != owner

def takeOwned (s : Store) (owner : String) : List String × Store :=
  (s.ownedBy owner, s.clearOwner owner)

end Store

end UnitSheet
