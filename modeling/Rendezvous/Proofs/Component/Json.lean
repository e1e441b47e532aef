import Rendezvous.Component.Json
import Rendezvous.Proofs.Collection.SortedMap
import Rendezvous.Proofs.Json.Decoder
/-!
# Components in JSON and back

What is read of a written component. Its doubles decide: if each finite one is read as it is, the
component is read as it is, unless one of its doubles is not finite, when nothing is read
(`Component.readsAs`). All other parts are read back whatever they are.
-/

namespace Rendezvous

/-- Whether every double that is finite is read back. -/
def DurableWhereFinite (xs : List Binary64) : Prop := ∀ x ∈ xs, x.isFinite = true → x.Durable

theorem DurableWhereFinite.of_subset {xs ys : List Binary64} (h : DurableWhereFinite ys)
    (hsubset : ∀ x ∈ xs, x ∈ ys) : DurableWhereFinite xs :=
  fun x hx => h x (hsubset x hx)

/-- A value with the given doubles, if they are all finite. -/
def whenFinite {α : Type} (xs : List Binary64) (a : α) : Option α :=
  if xs.all Binary64.isFinite then some a else none

theorem map_whenFinite {α β : Type} (f : α → β) (xs : List Binary64) (a : α) :
    (whenFinite xs a).map f = whenFinite xs (f a) := by
  unfold whenFinite
  split <;> rfl

theorem bind_whenFinite_some {α β : Type} (f : α → β) (xs : List Binary64) (a : α) :
    ((whenFinite xs a).bind fun a => some (f a)) = whenFinite xs (f a) := by
  unfold whenFinite
  split <;> rfl

/-- What is read in two parts is read if the doubles of both are finite. -/
theorem bind_whenFinite {α β : Type} (xs ys : List Binary64) (a : α) (f : α → β) :
    ((whenFinite xs a).bind fun a => whenFinite ys (f a)) = whenFinite (xs ++ ys) (f a) := by
  unfold whenFinite
  rw [List.all_append]
  cases xs.all Binary64.isFinite <;> rfl

/-- A list is read if all its items are. -/
theorem mapM_whenFinite {α β : Type} (doubles : α → List Binary64) (f : α → β) (as : List α) :
    (as.mapM fun a => whenFinite (doubles a) (f a)) =
      whenFinite (as.flatMap doubles) (as.map f) := by
  induction as with
  | nil => rfl
  | cons a as ih =>
    rw [List.mapM_cons, ih, List.flatMap_cons, List.map_cons]
    show ((whenFinite (doubles a) (f a)).bind fun b =>
      (whenFinite (as.flatMap doubles) (as.map f)).bind fun bs => some (b :: bs)) = _
    simp only [bind_whenFinite_some]
    rw [bind_whenFinite]

namespace Value

/-- The double that a value is. -/
def doubles : Value → List Binary64
  | float x => [x]
  | _ => []

/-- A value is written under the name of its kind, and read if it is no double but a finite one. -/
theorem reads_toJson {v : Value} (durable : DurableWhereFinite v.doubles) :
    ∃ members, Json.Reads v.toJson (.object members) ∧
      ∀ depth, ofJson? (depth + 1) (.object members) = whenFinite v.doubles v := by
  cases v with
  | string s =>
    exact ⟨[("String", .string s)], .object (.cons ⟨rfl, Json.reads_string s⟩ .nil), fun _ => rfl⟩
  | integer i =>
    have hlow : -0x8000_0000_0000_0000 ≤ i.toInt := i.le_toInt
    have hhigh : i.toInt < 0x8000_0000_0000_0000 := i.toInt_lt
    refine ⟨[("Integer", .integer i.toInt)],
      .object (.cons ⟨rfl, Json.reads_integer ⟨hlow, by omega⟩⟩ .nil), fun depth => ?_⟩
    show (Json.asInt64 depth (.integer i.toInt)).map integer = some (integer i)
    unfold Json.asInt64
    simp only
    rw [if_pos ⟨hlow, hhigh⟩, Int64.ofInt_toInt]
    rfl
  | float x =>
    have hmem : x ∈ (float x).doubles := List.mem_singleton.mpr rfl
    cases hfinite : x.isFinite with
    | true =>
      refine ⟨[("Float", .real x)],
        .object (.cons ⟨rfl, Json.reads_finite hfinite (durable x hmem hfinite)⟩ .nil),
        fun depth => ?_⟩
      show some (float x) = whenFinite [x] (float x)
      simp [whenFinite, hfinite]
    | false =>
      refine ⟨[("Float", .null)],
        .object (.cons ⟨rfl, Json.reads_unfinite hfinite⟩ .nil), fun depth => ?_⟩
      show none = whenFinite [x] (float x)
      simp [whenFinite, hfinite]
  | boolean b =>
    exact ⟨[("Boolean", .bool b)], .object (.cons ⟨rfl, Json.reads_bool b⟩ .nil), fun _ => rfl⟩

end Value

namespace ValueKind

theorem readsAs (k : ValueKind) (depth : Nat) : Json.ReadsAs ofJson? depth k.toJson (some k) := by
  refine ⟨.string k.name, Json.reads_string k.name, ?_⟩
  cases k <;> rfl

end ValueKind

namespace ComponentKind

theorem readsAs (k : ComponentKind) (depth : Nat) :
    Json.ReadsAs ofJson? depth k.toJson (some k) := by
  refine ⟨.string k.name, Json.reads_string k.name, ?_⟩
  cases k <;> rfl

end ComponentKind

namespace Attribute

/-- The double that the value of an attribute is. -/
def doubles (a : Attribute) : List Binary64 := a.value.toList.flatMap Value.doubles

theorem readsAs_value {a : Attribute} (durable : DurableWhereFinite a.doubles) (depth : Nat) :
    Json.ReadsAs (Json.asOption Value.ofJson?) (depth + 1) (Json.orNull Value.toJson a.value)
      (whenFinite a.doubles a.value) := by
  unfold doubles at durable ⊢
  cases hvalue : a.value with
  | none => exact ⟨.null, Json.reads_null, rfl⟩
  | some v =>
    rw [hvalue] at durable
    have hdoubles : (some v).toList.flatMap Value.doubles = v.doubles := by simp
    rw [hdoubles] at durable ⊢
    obtain ⟨members, hreads, hdecodes⟩ := Value.reads_toJson durable
    refine ⟨.object members, hreads, ?_⟩
    show (Value.ofJson? (depth + 1) (.object members)).map some = _
    rw [hdecodes, map_whenFinite]

theorem readsAs {a : Attribute} (durable : DurableWhereFinite a.doubles) (depth : Nat) :
    Json.ReadsAs ofJson? (depth + 2) a.toJson (whenFinite a.doubles a) := by
  obtain ⟨kind, hkind, dkind⟩ := a.kind.readsAs (depth + 1)
  obtain ⟨value, hvalue, dvalue⟩ := readsAs_value durable depth
  let members := [("name", Json.string a.name), ("attribute_type", kind), ("value", value)]
  have hreads : Json.Reads a.toJson (.object members) :=
    .object (.cons ⟨rfl, Json.reads_string a.name⟩ (.cons ⟨rfl, hkind⟩
      (.cons ⟨rfl, hvalue⟩ .nil)))
  let r : Json.Record := ⟨depth + 1, false, members⟩
  have hrecord : Json.record? fieldNames (depth + 2) (.object members) = some r :=
    Json.record?_object fieldNames members rfl (by decide) (depth + 1)
  have rname : r.required "name" Json.asString = some a.name :=
    Json.Record.required_string rfl
  have rkind : r.required "attribute_type" ValueKind.ofJson? = some a.kind :=
    (Json.Record.required_of_find? rfl).trans dkind
  have rvalue : r.nullable "value" Value.ofJson? = whenFinite a.doubles a.value :=
    (Json.Record.nullable_of_find? rfl).trans dvalue
  refine ⟨.object members, hreads, ?_⟩
  simp only [ofJson?, hrecord, rname, rkind, rvalue, Option.bind_eq_bind, Option.bind_some,
    bind_whenFinite_some]

end Attribute

namespace Attributes

/-- The doubles among the values. -/
def doubles (as : Attributes) : List Binary64 := as.values.flatMap Attribute.doubles

theorem doubles_eq (as : Attributes) :
    as.doubles = as.toList.flatMap fun e => e.2.doubles := by
  unfold doubles SortedMap.values
  rw [List.flatMap_map]

theorem readsAs {as : Attributes} (durable : DurableWhereFinite as.doubles) (depth : Nat) :
    Json.ReadsAs ofJson? (depth + 3) as.toJson (whenFinite as.doubles as) := by
  rw [doubles_eq] at durable ⊢
  have hmembers : Json.ReadsAs (Json.asMembers Attribute.ofJson?) (depth + 3) as.toJson
      (as.toList.mapM fun e => (whenFinite e.2.doubles e.2).map (e.1, ·)) := by
    refine Json.ReadsAs.members (r := fun a : Attribute => whenFinite a.doubles a) fun e he => ?_
    refine Attribute.readsAs (durable.of_subset fun x hx => ?_) depth
    exact List.mem_flatMap.mpr ⟨e, he, hx⟩
  have hall : (as.toList.mapM fun e => (whenFinite e.2.doubles e.2).map (e.1, ·)) =
      whenFinite (as.toList.flatMap fun e => e.2.doubles) as.toList := by
    simp only [map_whenFinite]
    rw [mapM_whenFinite (fun e : String × Attribute => e.2.doubles), List.map_id']
  rw [hall] at hmembers
  have hmap := hmembers.map SortedMap.ofList
  rw [map_whenFinite, SortedMap.ofList_toList] at hmap
  exact hmap

end Attributes

theorem readsAs_names (names : SortedSet String) (depth : Nat) :
    Json.ReadsAs namesOfJson? (depth + 1) (namesToJson names) (some names) := by
  have hlist : Json.ReadsAs (Json.asList Json.asString) (depth + 1) (namesToJson names)
      (names.members.mapM some) :=
    Json.ReadsAs.list fun name _ => Json.readsAs_string depth name
  have hall : names.members.mapM some = some names.members := by
    have hpure := List.mapM_pure (m := Option) (l := names.members) (f := id)
    rwa [List.map_id] at hpure
  rw [hall] at hlist
  have hmap := hlist.map SortedSet.ofList
  rw [Option.map_some, SortedSet.ofList_members] at hmap
  exact hmap

theorem readsAs_port (port : UInt16) (depth : Nat) :
    Json.ReadsAs portOfJson? depth (portToJson port) (some port) := by
  have hlt : port.toNat < 65536 := port.toNat_lt
  have hmap := (Json.readsAs_natural hlt (by decide) depth).map Nat.toUInt16
  rw [Option.map_some] at hmap
  have hport : port.toNat.toUInt16 = port := by simp
  rw [hport] at hmap
  exact hmap

theorem ComponentId.readsAs (id : ComponentId) (depth : Nat) :
    Json.ReadsAs ofJson? depth id.toJson (some id) :=
  (Json.readsAs_string depth id.text).map ComponentId.mk

namespace Component

/-- The doubles among the values of the attributes, hidden ones too. -/
def doubles (c : Component) : List Binary64 := c.constant.doubles ++ c.nonConstant.doubles

/-- A written component is read as it is, or not at all if one of its doubles is not finite. -/
theorem readsAs {c : Component} (durable : DurableWhereFinite c.doubles) (depth : Nat) :
    Json.ReadsAs ofJson? (depth + 4) c.toJson (whenFinite c.doubles c) := by
  have durableConstant : DurableWhereFinite c.constant.doubles :=
    durable.of_subset fun _ hx => List.mem_append_left _ hx
  have durableNonConstant : DurableWhereFinite c.nonConstant.doubles :=
    durable.of_subset fun _ hx => List.mem_append_right _ hx
  obtain ⟨id, hid, did⟩ := c.id.readsAs (depth + 3)
  obtain ⟨port, hport, dport⟩ := readsAs_port c.port (depth + 3)
  obtain ⟨kind, hkind, dkind⟩ := c.kind.readsAs (depth + 3)
  obtain ⟨constant, hconstant, dconstant⟩ := Attributes.readsAs durableConstant depth
  obtain ⟨nonConstant, hnonConstant, dnonConstant⟩ := Attributes.readsAs durableNonConstant depth
  obtain ⟨callbacks, hcallbacks, dcallbacks⟩ := readsAs_names c.callbacks (depth + 2)
  obtain ⟨services, hservices, dservices⟩ := readsAs_names c.services (depth + 2)
  obtain ⟨subscribers, hsubscribers, dsubscribers⟩ := readsAs_names c.subscribers (depth + 2)
  let members := [("id", id), ("classname", Json.string c.classname),
    ("hostname", Json.string c.hostname), ("host_address", Json.string c.hostAddress),
    ("port", port), ("component_type", kind), ("version", Json.string c.version),
    ("constant_attributes", constant), ("non_constant_attributes", nonConstant),
    ("callbacks", callbacks), ("services", services), ("subscribers", subscribers)]
  have hreads : Json.Reads c.toJson (.object members) :=
    .object (.cons ⟨rfl, hid⟩ (.cons ⟨rfl, Json.reads_string _⟩ (.cons ⟨rfl, Json.reads_string _⟩
      (.cons ⟨rfl, Json.reads_string _⟩ (.cons ⟨rfl, hport⟩ (.cons ⟨rfl, hkind⟩
      (.cons ⟨rfl, Json.reads_string _⟩ (.cons ⟨rfl, hconstant⟩ (.cons ⟨rfl, hnonConstant⟩
      (.cons ⟨rfl, hcallbacks⟩ (.cons ⟨rfl, hservices⟩ (.cons ⟨rfl, hsubscribers⟩
      .nil))))))))))))
  let r : Json.Record := ⟨depth + 3, false, members⟩
  have hrecord : Json.record? fieldNames (depth + 4) (.object members) = some r :=
    Json.record?_object fieldNames members rfl (by decide) (depth + 3)
  have rid : r.required "id" ComponentId.ofJson? = some c.id :=
    (Json.Record.required_of_find? rfl).trans did
  have rclassname : r.required "classname" Json.asString = some c.classname :=
    Json.Record.required_string rfl
  have rhostname : r.required "hostname" Json.asString = some c.hostname :=
    Json.Record.required_string rfl
  have raddress : r.required "host_address" Json.asString = some c.hostAddress :=
    Json.Record.required_string rfl
  have rport : r.required "port" portOfJson? = some c.port :=
    (Json.Record.required_of_find? rfl).trans dport
  have rkind : r.required "component_type" ComponentKind.ofJson? = some c.kind :=
    (Json.Record.required_of_find? rfl).trans dkind
  have rversion : r.required "version" Json.asString = some c.version :=
    Json.Record.required_string rfl
  have rconstant : r.required "constant_attributes" Attributes.ofJson? =
      whenFinite c.constant.doubles c.constant :=
    (Json.Record.required_of_find? rfl).trans dconstant
  have rnonConstant : r.required "non_constant_attributes" Attributes.ofJson? =
      whenFinite c.nonConstant.doubles c.nonConstant :=
    (Json.Record.required_of_find? rfl).trans dnonConstant
  have rcallbacks : r.required "callbacks" namesOfJson? = some c.callbacks :=
    (Json.Record.required_of_find? rfl).trans dcallbacks
  have rservices : r.required "services" namesOfJson? = some c.services :=
    (Json.Record.required_of_find? rfl).trans dservices
  have rsubscribers : r.required "subscribers" namesOfJson? = some c.subscribers :=
    (Json.Record.required_of_find? rfl).trans dsubscribers
  refine ⟨.object members, hreads, ?_⟩
  simp only [ofJson?, hrecord, rid, rclassname, rhostname, raddress, rport, rkind, rversion,
    rconstant, rnonConstant, rcallbacks, rservices, rsubscribers, Option.bind_eq_bind,
    Option.bind_some, bind_whenFinite_some]
  rw [bind_whenFinite]
  rfl

end Component

end Rendezvous
