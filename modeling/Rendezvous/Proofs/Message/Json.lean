import Rendezvous.Message.Json
import Rendezvous.Proofs.Json.Compact
import Rendezvous.Proofs.Json.Decoder
import Rendezvous.Proofs.Message.Node
import Rendezvous.Proofs.Text.Utf8
/-!
# Message trees in one line of JSON and back

A tree is read from its own line as it is, unless it has more arrays and objects open at once than a
reader takes (`Node.ofBytes?_compact`). The line is one object without control characters, so there
is no end of line in it and no blank at its ends.
-/

namespace Rendezvous.Node

theorem listToJson_eq (ns : List Node) : listToJson ns = ns.map toJson := by
  induction ns with
  | nil => rfl
  | cons n ns ih => rw [listToJson, ih, List.map_cons]

/-- The members of a written tree. -/
def members (n : Node) : List (String × Json) :=
  let value := match n.value with
    | some v => [("value", .string v)]
    | none => []
  let children := match n.children with
    | [] => []
    | c :: cs => [("children", .array ((c :: cs).map toJson))]
  ("name", .string n.name) :: (value ++ children)

theorem toJson_eq (n : Node) : n.toJson = .object n.members := by
  obtain ⟨name, value, children⟩ := n
  cases children with
  | nil => rfl
  | cons c cs => cases value <;> simp only [toJson.eq_def, members, listToJson_eq]

/-- A tree is written in one line and read back from it. -/
theorem kept_toJson (n : Node) : n.toJson.Kept := by
  induction n using Node.induction with
  | step name value children ih =>
    rw [toJson_eq]
    refine Json.kept_object ?_
    intro m hm
    unfold members at hm
    rcases List.mem_cons.mp hm with rfl | hm
    · exact Json.kept_string name
    · rcases List.mem_append.mp hm with hm | hm
      · cases value with
        | none => cases hm
        | some v =>
          rw [List.mem_singleton.mp hm]
          exact Json.kept_string v
      · cases children with
        | nil => cases hm
        | cons c cs =>
          rw [List.mem_singleton.mp hm]
          refine Json.kept_array fun j hj => ?_
          obtain ⟨child, hchild, rfl⟩ := List.mem_map.mp hj
          exact ih child hchild

/-! ## Depth -/

theorem depthOfItems_le {ns : List Node} {depth : Nat} :
    Json.depthOfItems (ns.map toJson) ≤ depth ↔ ∀ n ∈ ns, n.toJson.depth ≤ depth := by
  induction ns with
  | nil => simp [Json.depthOfItems]
  | cons n ns ih =>
    rw [List.map_cons, Json.depthOfItems, Nat.max_le, ih, List.forall_mem_cons]

/-- The object of a tree is one level, and the array of its children, if it has any, another one. -/
theorem depth_toJson (n : Node) :
    n.toJson.depth =
      if n.children = [] then 1 else Json.depthOfItems (n.children.map toJson) + 2 := by
  rw [toJson_eq]
  unfold members
  cases n.value <;> cases n.children <;> simp [Json.depth, Json.depthOfMembers]

/-- Items are read if each of them can be. -/
theorem mapM_decoder {ns : List Node} {decoder : Json → Option Node} (fits : Node → Prop)
    [DecidablePred fits] (h : ∀ n ∈ ns, decoder n.toJson = if fits n then some n else none) :
    (ns.map toJson).mapM decoder = if ∀ n ∈ ns, fits n then some ns else none := by
  induction ns with
  | nil => rfl
  | cons n ns ih =>
    rw [List.map_cons, List.mapM_cons, h n List.mem_cons_self,
      ih fun n hn => h n (List.mem_cons_of_mem _ hn)]
    by_cases hn : fits n
    · by_cases hns : ∀ n ∈ ns, fits n
      · rw [if_pos hn, if_pos hns, if_pos (List.forall_mem_cons.mpr ⟨hn, hns⟩)]
        rfl
      · rw [if_pos hn, if_neg hns, if_neg fun hall => hns (List.forall_mem_cons.mp hall).2]
        rfl
    · rw [if_neg hn, if_neg fun hall => hn (List.forall_mem_cons.mp hall).1]
      rfl

/-- The fields of a written tree are all there is in it. -/
theorem record?_members (n : Node) (depth : Nat) :
    Json.record? fieldNames (depth + 1) (.object n.members) = some ⟨depth, false, n.members⟩ := by
  obtain ⟨name, value, children⟩ := n
  cases value <;> cases children <;> rfl

theorem required_name (n : Node) (depth : Nat) :
    (⟨depth, false, n.members⟩ : Json.Record).required "name" Json.asString = some n.name := rfl

theorem defaulted_value (n : Node) (depth : Nat) :
    (⟨depth, false, n.members⟩ : Json.Record).defaulted "value" none
      (Json.asOption Json.asString) = some n.value := by
  obtain ⟨name, value, children⟩ := n
  cases value <;> cases children <;> rfl

theorem find?_children (n : Node) (depth : Nat) :
    (⟨depth, false, n.members⟩ : Json.Record).find? "children" =
      if n.children = [] then none else some (.array (n.children.map toJson)) := by
  obtain ⟨name, value, children⟩ := n
  cases value <;> cases children <;> rfl

/-- The children are read if they have no more levels than there may be below the array. -/
theorem defaulted_children {n : Node} {height depth : Nat} (h : depth ≤ height)
    (ih : ∀ c ∈ n.children, ∀ {height depth : Nat}, depth ≤ height →
      decoderWithin height depth c.toJson = if c.toJson.depth ≤ depth then some c else none) :
    (⟨depth, false, n.members⟩ : Json.Record).defaulted "children" []
        (Json.asList (decoderWithin height)) =
      if n.toJson.depth ≤ depth + 1 then some n.children else none := by
  unfold Json.Record.defaulted
  rw [find?_children, depth_toJson]
  by_cases hnone : n.children = []
  · rw [if_pos hnone, if_pos hnone, if_pos (by omega), hnone]
  · rw [if_neg hnone, if_neg hnone]
    cases depth with
    | zero => rw [if_neg (by omega)]; rfl
    | succ depth =>
      show (n.children.map toJson).mapM (decoderWithin height depth) = _
      rw [mapM_decoder (fun c => c.toJson.depth ≤ depth)
        fun c hc => ih c hc (Nat.le_of_succ_le h)]
      simp only [Nat.add_le_add_iff_right, ← depthOfItems_le]

/-- A written tree is decoded exactly if it has no more levels than there may be. -/
theorem decoderWithin_toJson (n : Node) {height depth : Nat} (h : depth ≤ height) :
    decoderWithin height depth n.toJson = if n.toJson.depth ≤ depth then some n else none := by
  induction n using Node.induction generalizing height depth with
  | step name value children ih =>
    cases depth with
    | zero =>
      have hlevel : ¬ (toJson ⟨name, value, children⟩).depth ≤ 0 := by
        rw [depth_toJson]
        split <;> omega
      rw [if_neg hlevel, toJson_eq]
      cases height <;> rfl
    | succ depth =>
      obtain ⟨below, rfl⟩ := Nat.exists_eq_add_of_le' h
      let n : Node := ⟨name, value, children⟩
      have hbelow : depth ≤ below + depth := Nat.le_add_left depth below
      have hchildren := defaulted_children (n := n) hbelow fun c hc _ _ => ih c hc
      show decoderWithin (below + depth + 1) (depth + 1) n.toJson =
        if n.toJson.depth ≤ depth + 1 then some n else none
      rw [toJson_eq n] at hchildren ⊢
      simp only [decoderWithin, record?_members, Option.bind_eq_bind, Option.bind_some,
        required_name, defaulted_value, hchildren]
      split <;> rfl

/-- The line of a tree is read as the tree exactly if it has no more arrays and objects open at once
than a reader takes; otherwise it is no message. -/
theorem ofBytes?_compact (n : Node) :
    ofBytes? (Text.Utf8.decode (Text.Utf8.encode n.toJson.compact)) =
      if n.toJson.depth ≤ Json.maxDepth then some n else none := by
  unfold ofBytes? Json.decode?
  rw [Text.Utf8.decode_encode, n.kept_toJson.read]
  exact n.decoderWithin_toJson (Nat.le_refl _)

end Rendezvous.Node
