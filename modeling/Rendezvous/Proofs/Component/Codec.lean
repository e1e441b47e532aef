import Rendezvous.Proofs.Collection.SortedMap
import Rendezvous.Proofs.Component.Json
import Rendezvous.Proofs.Component.Keyed
import Rendezvous.Proofs.Component.Value
/-!
# Components as messages

What the reader of a component demands is what every component that it gives has: a name that is
not blank, and attributes that stand under their own names, are not blank either and have values of
their declared kinds (`Component.Proper`). Such a component is read from its own node as it is, if
none of its values is the absence of a number.
-/

namespace Rendezvous

namespace Attribute

/-- Whether an attribute has a name and no value but one of its kind. -/
structure Proper (a : Attribute) : Prop where
  named : Text.isBlankText a.name = false
  typed : ∀ v, a.value = some v → v.kind = a.kind

/-- What a node says of the value of an attribute of a kind. -/
def ValueReadAs (n : Node) (kind : ValueKind) (value : Option Value) : Prop :=
  match n.valueOf? "value" with
  | some raw => ∃ v, Value.ofText kind raw = .ok v ∧ value = some v
  | none => value = none

theorem bind_value {α : Type} {n : Node} {kind : ValueKind}
    {f : Option Value → Except DecodeError α} {b : α} :
    (match n.valueOf? "value" with
      | some raw => (Value.ofText kind raw).map some >>= f
      | none => Except.ok none >>= f) = .ok b ↔
      ∃ value, ValueReadAs n kind value ∧ f value = .ok b := by
  unfold ValueReadAs
  cases n.valueOf? "value" with
  | none => simp [Node.ok_bind]
  | some raw =>
    simp only [Node.bind_eq_ok, Node.map_eq_ok]
    constructor
    · rintro ⟨_, ⟨v, hv, rfl⟩, hf⟩
      exact ⟨some v, ⟨v, hv, rfl⟩, hf⟩
    · rintro ⟨_, ⟨v, hv, rfl⟩, hf⟩
      exact ⟨some v, ⟨v, hv, rfl⟩, hf⟩

/-- All that the reading of an attribute asks for. -/
structure ReadAs (n : Node) (a : Attribute) : Prop where
  tag : n.name = "attribute"
  name : n.valueOf? "name" = some a.name
  named : Text.isBlankText a.name = false
  kind : ValueKind.DeclaredBy n a.kind
  value : ValueReadAs n a.kind a.value

theorem ofNode_eq_ok {n : Node} {a : Attribute} : ofNode n = .ok a ↔ ReadAs n a := by
  constructor
  · intro h
    obtain ⟨_, htag, h⟩ := Node.bind_eq_ok.mp h
    obtain ⟨name, hname, h⟩ := Node.bind_eq_ok.mp h
    obtain ⟨hnamed, h⟩ := Node.refuse_eq_ok.mp h
    obtain ⟨kind, hkind, h⟩ := ValueKind.bind_declared.mp h
    obtain ⟨value, hvalue, h⟩ := bind_value.mp h
    cases h
    exact ⟨Node.expectName_eq_ok.mp htag, Node.requireValue_eq_ok.mp hname, hnamed, hkind, hvalue⟩
  · rintro ⟨htag, hname, hnamed, hkind, hvalue⟩
    refine Node.bind_eq_ok.mpr ⟨(), Node.expectName_eq_ok.mpr htag, ?_⟩
    refine Node.bind_eq_ok.mpr ⟨a.name, Node.requireValue_eq_ok.mpr hname, ?_⟩
    refine Node.refuse_eq_ok.mpr ⟨hnamed, ?_⟩
    refine ValueKind.bind_declared.mpr ⟨a.kind, hkind, ?_⟩
    exact bind_value.mpr ⟨a.value, hvalue, rfl⟩

theorem proper_of_ofNode {n : Node} {a : Attribute} (h : ofNode n = .ok a) : a.Proper := by
  obtain ⟨-, -, hnamed, -, hvalue⟩ := ofNode_eq_ok.mp h
  refine ⟨hnamed, fun v hv => ?_⟩
  unfold ValueReadAs at hvalue
  split at hvalue
  · obtain ⟨w, hw, hsome⟩ := hvalue
    rw [hv] at hsome
    cases hsome
    exact Value.kind_of_ofText hw
  · rw [hv] at hvalue
    cases hvalue

theorem toNode_value (a : Attribute) : a.toNode.valueOf? "value" = a.value.map Value.text := by
  unfold toNode
  cases a.value <;> simp [Node.valueOf?_branch_cons]

theorem ofNode_toNode {a : Attribute} (proper : a.Proper) (numeric : .nan ∉ a.doubles) :
    ofNode a.toNode = .ok a := by
  refine ofNode_eq_ok.mpr ⟨rfl, ?_, proper.named, ?_, ?_⟩
  · simp [toNode, Node.valueOf?_branch_cons]
  · have hkind := ValueKind.ofText_eq_ok.mp (ValueKind.ofText_name a.kind)
    simpa [ValueKind.DeclaredBy, toNode, Node.valueOf?_branch_cons] using hkind
  · unfold ValueReadAs
    rw [toNode_value]
    cases hvalue : a.value with
    | none => rfl
    | some v =>
      have hv : v ≠ .float .nan := by
        rintro rfl
        exact numeric (by simp [doubles, hvalue, Value.doubles])
      refine ⟨v, ?_, rfl⟩
      rw [← proper.typed v hvalue]
      exact Value.ofText_text hv

end Attribute

namespace Attributes

/-- Whether attributes stand under their names and are proper each. -/
structure Proper (as : Attributes) : Prop where
  keyed : as.Keyed
  each : ∀ a ∈ as.values, a.Proper

theorem ofList_eq (as : List Attribute) :
    ofList as = SortedMap.ofList (as.map fun a => (a.name, a)) := by
  unfold ofList SortedMap.ofList SortedMap.insertAll
  rw [List.foldl_map]
  rfl

theorem mem_values_ofList {as : List Attribute} {a : Attribute} (h : a ∈ (ofList as).values) :
    a ∈ as := by
  obtain ⟨k, hk⟩ := SortedMap.mem_values.mp h
  rw [ofList_eq] at hk
  rcases SortedMap.mem_of_get?_insertAll hk with hmem | hempty
  · obtain ⟨b, hb, heq⟩ := List.mem_map.mp hmem
    cases heq
    exact hb
  · cases hempty

theorem proper_of_ofNode {n : Node} {as : Attributes} (h : ofNode n = .ok as) : as.Proper := by
  obtain ⟨read, hread, rfl⟩ := Node.map_eq_ok.mp h
  refine ⟨keyed_ofList read, fun a ha => ?_⟩
  obtain ⟨m, -, hm⟩ := Node.exists_of_mapM hread a (mem_values_ofList ha)
  exact Attribute.proper_of_ofNode hm

theorem Keyed.ofList_values {as : Attributes} (keyed : as.Keyed) : ofList as.values = as := by
  rw [ofList_eq, SortedMap.map_values_eq_toList keyed, SortedMap.ofList_toList]

theorem ofNode_toNode {as : Attributes} {name : String} (proper : as.Proper)
    (numeric : .nan ∉ as.doubles) : ofNode (as.toNode name) = .ok as := by
  have hnames : ∀ c ∈ as.values.map Attribute.toNode, c.name = Attribute.tag := by
    intro c hc
    obtain ⟨a, -, rfl⟩ := List.mem_map.mp hc
    rfl
  have hread : (as.values.map Attribute.toNode).mapM Attribute.ofNode = .ok as.values := by
    refine Node.mapM_map fun a ha => Attribute.ofNode_toNode (proper.each a ha) fun hnan => ?_
    exact numeric (List.mem_flatMap.mpr ⟨a, ha, hnan⟩)
  unfold ofNode toNode
  rw [Node.childrenNamed_branch hnames, hread]
  exact congrArg Except.ok proper.keyed.ofList_values

end Attributes

theorem ComponentKind.ofText_name (k : ComponentKind) : ofText k.name = .ok k := by
  cases k <;> rfl

theorem UpdateMode.ofText_name (mode : UpdateMode) : ofText mode.name = .ok mode := by
  cases mode <;> rfl

theorem namesOfNode_eq {n : Node} {name item : String} {names : SortedSet String}
    (h : n.child? name = some (namesToNode name item names)) : namesOfNode n name item = names := by
  have hleaves : ∀ c ∈ names.members.map (Node.leaf item), c.name = item := by
    intro c hc
    obtain ⟨v, -, rfl⟩ := List.mem_map.mp hc
    rfl
  have hvalues : (names.members.map (Node.leaf item)).filterMap Node.value = names.members := by
    rw [List.filterMap_map]
    exact List.filterMap_some
  unfold namesOfNode
  rw [h]
  show SortedSet.ofList
    (((namesToNode name item names).childrenNamed item).filterMap Node.value) = _
  rw [namesToNode, Node.childrenNamed_branch hleaves, hvalues, SortedSet.ofList_members]

/-- A port is read from its text. -/
theorem Node.parse_port {n : Node} {name : String} {port : UInt16}
    (h : n.valueOf? name = some (Text.ofNat port.toNat)) :
    n.parse name Text.word16? = .ok port := by
  refine Node.parse_eq_ok.mpr ⟨_, h, ?_⟩
  rw [Text.trim_ofNat, Text.word16?_ofNat]

theorem Summary.ofNode_toNode (s : Summary) : ofNode s.toNode = .ok s := by
  have hfields : s.toNode.valueOf? "id" = some s.id.text ∧
      s.toNode.valueOf? "classname" = some s.classname ∧
      s.toNode.valueOf? "hostname" = some s.hostname ∧
      s.toNode.valueOf? "hostAddress" = some s.hostAddress ∧
      s.toNode.valueOf? "port" = some (Text.ofNat s.port.toNat) ∧
      s.toNode.valueOf? "type" = some s.kind.name := by
    simp [toNode, Node.valueOf?_branch_cons]
  obtain ⟨hid, hclassname, hhostname, hhostAddress, hport, hkind⟩ := hfields
  refine Node.bind_eq_ok.mpr ⟨(), Node.expectName_eq_ok.mpr rfl, ?_⟩
  refine Node.bind_eq_ok.mpr ⟨_, Node.requireValue_eq_ok.mpr hid, ?_⟩
  refine Node.bind_eq_ok.mpr ⟨_, Node.requireValue_eq_ok.mpr hhostname, ?_⟩
  refine Node.bind_eq_ok.mpr ⟨_, Node.requireValue_eq_ok.mpr hhostAddress, ?_⟩
  refine Node.bind_eq_ok.mpr ⟨_, Node.parse_port hport, ?_⟩
  refine Node.bind_eq_ok.mpr ⟨_, Node.requireValue_eq_ok.mpr hkind, ?_⟩
  refine Node.bind_eq_ok.mpr ⟨_, ComponentKind.ofText_name s.kind, ?_⟩
  rw [hclassname]
  rfl

namespace Component

/-- Whether a component has a name and proper attributes. -/
structure Proper (c : Component) : Prop where
  named : c.id.isBlank = false
  constant : c.constant.Proper
  nonConstant : c.nonConstant.Proper

theorem proper_of_attributesOf {n : Node} {name : String} {as : Attributes}
    (h : attributesOf n name = .ok as) : as.Proper := by
  unfold attributesOf at h
  split at h
  · exact Attributes.proper_of_ofNode h
  · cases h
    exact ⟨Attributes.keyed_empty, fun _ h => absurd h List.not_mem_nil⟩

theorem attributesOf_eq {n : Node} {name : String} {as : Attributes}
    (h : n.child? name = some (as.toNode name)) (proper : as.Proper) (numeric : .nan ∉ as.doubles) :
    attributesOf n name = .ok as := by
  unfold attributesOf
  rw [h]
  exact Attributes.ofNode_toNode proper numeric

theorem proper_of_ofNode {n : Node} {c : Component} (h : ofNode n = .ok c) : c.Proper := by
  obtain ⟨_, -, h⟩ := Node.bind_eq_ok.mp h
  obtain ⟨id, -, h⟩ := Node.bind_eq_ok.mp h
  obtain ⟨hnamed, h⟩ := Node.refuse_eq_ok.mp h
  obtain ⟨kindText, -, h⟩ := Node.bind_eq_ok.mp h
  obtain ⟨kind, -, h⟩ := Node.bind_eq_ok.mp h
  obtain ⟨port, -, h⟩ := Node.bind_eq_ok.mp h
  obtain ⟨constant, hconstant, h⟩ := Node.bind_eq_ok.mp h
  obtain ⟨nonConstant, hnonConstant, h⟩ := Node.bind_eq_ok.mp h
  cases h
  exact ⟨hnamed, proper_of_attributesOf hconstant, proper_of_attributesOf hnonConstant⟩

theorem ofNode_toNode {c : Component} (proper : c.Proper) (numeric : .nan ∉ c.doubles) :
    ofNode c.toNode = .ok c := by
  have hfields : c.toNode.valueOf? "id" = some c.id.text ∧
      c.toNode.valueOf? "classname" = some c.classname ∧
      c.toNode.valueOf? "hostname" = some c.hostname ∧
      c.toNode.valueOf? "hostAddress" = some c.hostAddress ∧
      c.toNode.valueOf? "port" = some (Text.ofNat c.port.toNat) ∧
      c.toNode.valueOf? "type" = some c.kind.name ∧
      c.toNode.valueOf? "version" = some c.version := by
    simp [toNode, Node.valueOf?_branch_cons]
  have hchildren :
      c.toNode.child? "constantAttributes" = some (c.constant.toNode "constantAttributes") ∧
      c.toNode.child? "nonConstantAttributes" =
        some (c.nonConstant.toNode "nonConstantAttributes") ∧
      c.toNode.child? "callbacks" = some (namesToNode "callbacks" "callback" c.callbacks) ∧
      c.toNode.child? "services" = some (namesToNode "services" "service" c.services) ∧
      c.toNode.child? "subscribers" =
        some (namesToNode "subscribers" "subscriber" c.subscribers) := by
    simp [toNode, Node.child?_branch_cons, Attributes.toNode, namesToNode]
  obtain ⟨hid, hclassname, hhostname, hhostAddress, hport, hkind, hversion⟩ := hfields
  obtain ⟨hconstant, hnonConstant, hcallbacks, hservices, hsubscribers⟩ := hchildren
  have hnumeric : .nan ∉ c.constant.doubles ∧ .nan ∉ c.nonConstant.doubles := by
    unfold doubles at numeric
    simpa using numeric
  have hport' : c.toNode.parseOptional "port" Text.word16? = .ok (some c.port) := by
    refine Node.parseOptional_eq_ok.mpr (.inr ⟨_, c.port, hport, ?_, rfl⟩)
    rw [Text.trim_ofNat, Text.word16?_ofNat]
  refine Node.bind_eq_ok.mpr ⟨(), Node.expectName_eq_ok.mpr rfl, ?_⟩
  refine Node.bind_eq_ok.mpr ⟨_, Node.requireValue_eq_ok.mpr hid, ?_⟩
  refine Node.refuse_eq_ok.mpr ⟨proper.named, ?_⟩
  refine Node.bind_eq_ok.mpr ⟨_, Node.requireValue_eq_ok.mpr hkind, ?_⟩
  refine Node.bind_eq_ok.mpr ⟨_, ComponentKind.ofText_name c.kind, ?_⟩
  refine Node.bind_eq_ok.mpr ⟨_, hport', ?_⟩
  refine Node.bind_eq_ok.mpr ⟨_, attributesOf_eq hconstant proper.constant hnumeric.1, ?_⟩
  refine Node.bind_eq_ok.mpr ⟨_, attributesOf_eq hnonConstant proper.nonConstant hnumeric.2, ?_⟩
  rw [hclassname, hhostname, hhostAddress, hversion, namesOfNode_eq hcallbacks,
    namesOfNode_eq hservices, namesOfNode_eq hsubscribers]
  rfl

end Component

end Rendezvous
