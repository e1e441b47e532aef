import Rendezvous.Text.Blank
import Rendezvous.Text.Uuid
/-!
# Identifiers

A component names itself, so a `ComponentId` is any text; components are listed in the order of
these texts, character by character. A subscription is named by the service with a number that is
never used again.
-/

namespace Rendezvous

/-- The name of a component. -/
structure ComponentId where
  text : String
deriving DecidableEq, Inhabited, Repr

namespace ComponentId

/-- Whether a component cannot be registered under this name. -/
def isBlank (id : ComponentId) : Bool := Text.isBlankText id.text

instance : Ord ComponentId := ⟨fun a b => compare a.text b.text⟩

theorem compare_def (a b : ComponentId) : compare a b = compare a.text b.text := rfl

instance : Std.OrientedOrd ComponentId where
  eq_swap {a b} :=
    show compare a.text b.text = (compare b.text a.text).swap from Std.OrientedCmp.eq_swap

instance : Std.TransOrd ComponentId where
  isLE_trans {a b c} (hab : (compare a.text b.text).isLE = true)
      (hbc : (compare b.text c.text).isLE = true) :=
    show (compare a.text c.text).isLE = true from Std.TransCmp.isLE_trans hab hbc

instance : Std.LawfulEqOrd ComponentId where
  compare_self {a} := show compare a.text a.text = .eq from Std.ReflCmp.compare_self
  eq_of_compare {a b} h := by
    have : a.text = b.text := Std.LawfulEqOrd.eq_of_compare h
    cases a
    cases b
    simp_all

end ComponentId

/-- The name of a subscription. -/
structure SubscriptionId where
  uuid : Uuid
deriving DecidableEq, Inhabited

namespace SubscriptionId

/-- What subscriptions are told by among other identifiers. -/
def mark : List Char := ['s', 'u', 'b', ':']

/-- The mark and the number. -/
def text (id : SubscriptionId) : String := String.ofList (mark ++ id.uuid.text.toList)

/-- Reads a number with or without the mark before it. -/
def ofText? (s : String) : Option SubscriptionId :=
  let cs := s.toList
  let bare := if mark.isPrefixOf cs then cs.drop mark.length else cs
  (Uuid.ofText? (String.ofList bare)).map SubscriptionId.mk

end SubscriptionId

end Rendezvous
