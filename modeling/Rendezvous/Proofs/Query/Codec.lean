import Rendezvous.Proofs.Component.Value
import Rendezvous.Proofs.Message.Node
import Rendezvous.Proofs.Query.Search
import Rendezvous.Query.Codec
/-!
# The grammar of queries

Which trees of nodes are queries (`Query.Grammar`), said by their shape and their words and without
the reader. A tree is read as a sound query exactly if it belongs to the grammar, a query that is
written is read as itself, and it is sound exactly if the reader of sound queries takes it
(`Query.codec`).
-/

namespace Rendezvous

namespace Selector

/-- The words for what a rule looks at, attributes apart. -/
def words : List String :=
  ["id", "type", "classname", "hostname", "hostAddress", "port", "version", "callback", "service"]

/-- Whether an attribute has a name; selectors for other things need none. -/
def Named (s : Selector) : Prop := ∀ name, s = .attribute name → Text.isBlankText name = false

/-- The name of the attribute that is selected. -/
def attributeName? : Selector → Option String
  | .attribute n => some n
  | _ => none

theorem ofText_name (s : Selector) : ofText s.name s.attributeName? = .ok s := by
  cases s with
  | «attribute» n =>
    have htrim : Text.trim "attribute" = "attribute" := by decide
    simp [name, attributeName?, ofText, htrim]
  | _ => rfl

theorem named_of_mem_plain {s : Selector} (h : s ∈ plain) : s.Named ∧ s.name ∈ words := by
  have hall : ∀ s ∈ plain, s.attributeName? = none ∧ s.name ∈ words := by decide
  obtain ⟨hnone, hword⟩ := hall s h
  refine ⟨?_, hword⟩
  rintro name rfl
  cases hnone

/-- A word, with a name where it is the word for attributes, is one for a selector. -/
theorem exists_ofText {raw : String} {name? : Option String} :
    (∃ s, ofText raw name? = .ok s ∧ s.Named) ↔
      Text.trim raw ∈ words ∨
        Text.trim raw = "attribute" ∧
          ∃ name, name? = some name ∧ Text.isBlankText name = false := by
  unfold ofText
  generalize Text.trim raw = word
  dsimp only
  split
  · next hword =>
    subst hword
    have hnot : "attribute" ∉ words := by decide
    cases name? with
    | none => simp [hnot]
    | some name => simp [hnot, Named]
  · next hword =>
    constructor
    · rintro ⟨s, hread, -⟩
      split at hread
      · next found hfind =>
        have hname : found.name = word := by simpa using List.find?_some hfind
        rw [← hname]
        exact .inl (named_of_mem_plain (List.mem_of_find?_eq_some hfind)).2
      · cases hread
    · rintro (hmem | ⟨hattribute, -⟩)
      · have hall : ∀ w ∈ words, (plain.find? fun s => s.name = w).isSome = true := by decide
        obtain ⟨s, hs⟩ := Option.isSome_iff_exists.mp (hall word hmem)
        rw [hs]
        exact ⟨s, rfl, (named_of_mem_plain (List.mem_of_find?_eq_some hs)).1⟩
      · exact absurd hattribute hword

end Selector

namespace Comparison

/-- The words and signs for comparisons. -/
def words : List String :=
  ["equal", "=", "==", "different", "!=", "<>", "greater", ">", "greaterOrEqual", ">=", "less", "<",
    "lessOrEqual", "<="]

theorem ofText_name (c : Comparison) : ofText c.name = .ok c := by
  cases c <;> rfl

theorem exists_ofText {raw : String} : (∃ c, ofText raw = .ok c) ↔ Text.trim raw ∈ words := by
  unfold ofText
  generalize Text.trim raw = word
  dsimp only
  constructor
  · rintro ⟨c, hread⟩
    split at hread
    · next found hfind =>
      have hspelled : word ∈ found.spellings := by simpa using List.find?_some hfind
      have hall : ∀ w ∈ found.spellings, w ∈ words := by cases found <;> decide
      exact hall word hspelled
    · cases hread
  · intro hmem
    have hall : ∀ w ∈ words, (all.find? fun c => w ∈ c.spellings).isSome = true := by decide
    obtain ⟨c, hc⟩ := Option.isSome_iff_exists.mp (hall word hmem)
    rw [hc]
    exact ⟨c, rfl⟩

end Comparison

namespace Rule

/-- Whether a node is the selector of a rule: the word of a kind, for attributes with a name. -/
def SelectorForm (n : Node) : Prop :=
  ∃ raw, n.valueOf? "kind" = some raw ∧
    (Text.trim raw ∈ Selector.words ∨
      Text.trim raw = "attribute" ∧
        ∃ name, n.valueOf? "name" = some name ∧ Text.isBlankText name = false)

/-- Whether a node is the operand of a rule: a value that can be read under its kind. -/
def OperandForm (n : Node) : Prop :=
  ∃ kind raw, ValueKind.DeclaredBy n kind ∧ n.valueOf? "value" = some raw ∧ Value.Reads kind raw

/-- Whether a node is a rule: of each field the first child of its name counts. -/
structure Form (n : Node) : Prop where
  name : n.name = "queryRule"
  selector : ∃ s, n.child? "selector" = some s ∧ SelectorForm s
  comparison : ∃ raw, n.valueOf? "comparison" = some raw ∧ Text.trim raw ∈ Comparison.words
  operand : ∃ o, n.child? "operand" = some o ∧ OperandForm o

/-- The node of what a rule looks at. -/
def selectorNode (s : Selector) : Node :=
  .branch "selector" (.leaf "kind" s.name :: match s with
    | .attribute n => [Node.leaf "name" n]
    | _ => [])

theorem selectorNode_fields (s : Selector) :
    (selectorNode s).valueOf? "kind" = some s.name ∧
      (selectorNode s).valueOf? "name" = s.attributeName? := by
  cases s <;> simp [selectorNode, Node.valueOf?_branch_cons, Selector.attributeName?]

/-- All that the reading of a rule asks for. -/
structure ReadAs (n : Node) (r : Rule) : Prop where
  name : n.name = tag
  selector : ∃ s raw, n.child? "selector" = some s ∧ s.valueOf? "kind" = some raw ∧
    Selector.ofText raw (s.valueOf? "name") = .ok r.selector
  comparison : ∃ raw, n.valueOf? "comparison" = some raw ∧ Comparison.ofText raw = .ok r.comparison
  operand : ∃ o kind raw, n.child? "operand" = some o ∧ ValueKind.DeclaredBy o kind ∧
    o.valueOf? "value" = some raw ∧ Value.ofText kind raw = .ok r.operand

theorem ofNode_eq_ok {n : Node} {r : Rule} : ofNode n = .ok r ↔ ReadAs n r := by
  constructor
  · intro h
    obtain ⟨_, hname, h⟩ := Node.bind_eq_ok.mp h
    obtain ⟨s, hs, h⟩ := Node.bind_eq_ok.mp h
    obtain ⟨kindText, hkindText, h⟩ := Node.bind_eq_ok.mp h
    obtain ⟨selector, hselector, h⟩ := Node.bind_eq_ok.mp h
    obtain ⟨word, hword, h⟩ := Node.bind_eq_ok.mp h
    obtain ⟨comparison, hcomparison, h⟩ := Node.bind_eq_ok.mp h
    obtain ⟨o, ho, h⟩ := Node.bind_eq_ok.mp h
    obtain ⟨kind, hkind, h⟩ := ValueKind.bind_declared.mp h
    obtain ⟨raw, hraw, h⟩ := Node.bind_eq_ok.mp h
    obtain ⟨operand, hoperand, h⟩ := Node.bind_eq_ok.mp h
    cases h
    exact ⟨Node.expectName_eq_ok.mp hname,
      ⟨s, kindText, Node.requireChild_eq_ok.mp hs, Node.requireValue_eq_ok.mp hkindText,
        hselector⟩,
      ⟨word, Node.requireValue_eq_ok.mp hword, hcomparison⟩,
      ⟨o, kind, raw, Node.requireChild_eq_ok.mp ho, hkind, Node.requireValue_eq_ok.mp hraw,
        hoperand⟩⟩
  · rintro ⟨hname, ⟨s, kindText, hs, hkindText, hselector⟩, ⟨word, hword, hcomparison⟩,
      ⟨o, kind, raw, ho, hkind, hraw, hoperand⟩⟩
    refine Node.bind_eq_ok.mpr ⟨(), Node.expectName_eq_ok.mpr hname, ?_⟩
    refine Node.bind_eq_ok.mpr ⟨s, Node.requireChild_eq_ok.mpr hs, ?_⟩
    refine Node.bind_eq_ok.mpr ⟨kindText, Node.requireValue_eq_ok.mpr hkindText, ?_⟩
    refine Node.bind_eq_ok.mpr ⟨r.selector, hselector, ?_⟩
    refine Node.bind_eq_ok.mpr ⟨word, Node.requireValue_eq_ok.mpr hword, ?_⟩
    refine Node.bind_eq_ok.mpr ⟨r.comparison, hcomparison, ?_⟩
    refine Node.bind_eq_ok.mpr ⟨o, Node.requireChild_eq_ok.mpr ho, ?_⟩
    refine ValueKind.bind_declared.mpr ⟨kind, hkind, ?_⟩
    refine Node.bind_eq_ok.mpr ⟨raw, Node.requireValue_eq_ok.mpr hraw, ?_⟩
    exact Node.bind_eq_ok.mpr ⟨r.operand, hoperand, rfl⟩

/-- A rule without an absent number is read as itself. -/
theorem ofNode_toNode {r : Rule} (h : r.operand ≠ .float .nan) : ofNode r.toNode = .ok r := by
  obtain ⟨hkind, hname⟩ := selectorNode_fields r.selector
  have hoperand : r.toNode.child? "operand" = some (.branch "operand"
      [.leaf "type" r.operand.kind.name, .leaf "value" r.operand.text]) := by
    simp [toNode, Node.child?_branch_cons]
  refine ofNode_eq_ok.mpr ⟨rfl, ⟨selectorNode r.selector, _, rfl, hkind, ?_⟩,
    ⟨r.comparison.name, ?_, ?_⟩,
    ⟨_, r.operand.kind, r.operand.text, hoperand, ?_, ?_, Value.ofText_text h⟩⟩
  · rw [hname]
    exact Selector.ofText_name r.selector
  · simp [toNode, Node.valueOf?_branch_cons]
  · exact Comparison.ofText_name r.comparison
  · simp [ValueKind.DeclaredBy, Node.valueOf?_branch_cons]
    exact ValueKind.ofText_eq_ok.mp (ValueKind.ofText_name _)
  · simp [Node.valueOf?_branch_cons]

/-- A node can be read as a rule with a named selector exactly if it has the form of one. -/
theorem exists_ofNode {n : Node} :
    (∃ r, ofNode n = .ok r ∧ r.selector.Named) ↔ Form n := by
  constructor
  · rintro ⟨r, hread, hnamed⟩
    obtain ⟨hname, ⟨s, kindText, hs, hkindText, hselector⟩, ⟨word, hword, hcomparison⟩,
      ⟨o, kind, raw, ho, hkind, hraw, hoperand⟩⟩ := ofNode_eq_ok.mp hread
    exact ⟨hname, ⟨s, hs, kindText, hkindText, Selector.exists_ofText.mp ⟨_, hselector, hnamed⟩⟩,
      ⟨word, hword, Comparison.exists_ofText.mp ⟨_, hcomparison⟩⟩,
      ⟨o, ho, kind, raw, hkind, hraw, Value.exists_ofText.mp ⟨_, hoperand⟩⟩⟩
  · rintro ⟨hname, ⟨s, hs, kindText, hkindText, hform⟩, ⟨word, hword, hspelled⟩,
      ⟨o, ho, kind, raw, hkind, hraw, hreads⟩⟩
    obtain ⟨selector, hselector, hnamed⟩ := Selector.exists_ofText.mpr hform
    obtain ⟨comparison, hcomparison⟩ := Comparison.exists_ofText.mpr hspelled
    obtain ⟨operand, hoperand⟩ := Value.exists_ofText.mpr hreads
    exact ⟨⟨selector, comparison, operand⟩, ofNode_eq_ok.mpr ⟨hname, ⟨s, kindText, hs, hkindText,
      hselector⟩, ⟨word, hword, hcomparison⟩, ⟨o, kind, raw, ho, hkind, hraw, hoperand⟩⟩, hnamed⟩

end Rule

namespace Query

mutual

/-- A query and all the queries in it, at any depth. -/
def parts : Query → List Query
  | rule r => [rule r]
  | all qs => all qs :: partsOfList qs
  | any qs => any qs :: partsOfList qs
  | not q => not q :: parts q
  | noneOf qs => noneOf qs :: partsOfList qs

/-- Some queries and all the queries in them. -/
def partsOfList : List Query → List Query
  | [] => []
  | q :: qs => parts q ++ partsOfList qs

end

/-- Whether something holds of a query and of all the queries in it. -/
def Every (P : Query → Prop) (q : Query) : Prop := ∀ s ∈ q.parts, P s

theorem mem_partsOfList {s : Query} {qs : List Query} :
    s ∈ partsOfList qs ↔ ∃ q ∈ qs, s ∈ q.parts := by
  induction qs with
  | nil => simp [partsOfList]
  | cons q qs ih => simp [partsOfList, ih]

section Every

variable {P : Query → Prop} {q : Query} {qs : List Query}

theorem every_list : (∀ s ∈ partsOfList qs, P s) ↔ ∀ q ∈ qs, q.Every P := by
  simp only [mem_partsOfList, Every]
  exact ⟨fun h q hq s hs => h s ⟨q, hq, hs⟩, fun h s ⟨q, hq, hs⟩ => h q hq s hs⟩

theorem every_rule {r : Rule} : (rule r).Every P ↔ P (rule r) := by
  simp [Every, parts]

theorem every_all : (all qs).Every P ↔ P (all qs) ∧ ∀ q ∈ qs, q.Every P := by
  rw [← every_list, Every, parts, List.forall_mem_cons]

theorem every_any : (any qs).Every P ↔ P (any qs) ∧ ∀ q ∈ qs, q.Every P := by
  rw [← every_list, Every, parts, List.forall_mem_cons]

theorem every_noneOf : (noneOf qs).Every P ↔ P (noneOf qs) ∧ ∀ q ∈ qs, q.Every P := by
  rw [← every_list, Every, parts, List.forall_mem_cons]

theorem every_not : (not q).Every P ↔ P (not q) ∧ q.Every P := by
  rw [Every, parts, List.forall_mem_cons, Every]

end Every

/-- Whether a query has children where it needs some and, as a rule on an attribute, a name. -/
def HasParts : Query → Prop
  | rule r => r.selector.Named
  | all qs => qs ≠ []
  | any qs => qs ≠ []
  | noneOf qs => qs ≠ []
  | not _ => True

/-- Whether no query at any depth lacks children or the name of an attribute. -/
def Sound (q : Query) : Prop := q.Every HasParts

/-- Whether a query is no rule that compares with the absence of a number. -/
def HasNumber : Query → Prop
  | rule r => r.operand ≠ .float .nan
  | _ => True

/-- Whether no rule at any depth compares with the absence of a number. -/
def Numeric (q : Query) : Prop := q.Every HasNumber

theorem validateAll_eq_ok {qs : List Query} :
    validateAll qs = .ok () ↔ ∀ q ∈ qs, validate q = .ok () := by
  induction qs with
  | nil => simp [validateAll]
  | cons q qs ih =>
    rw [validateAll, List.forall_mem_cons, ← ih]
    cases validate q with
    | ok u => simp
    | error e => simp

/-- Nothing is found wrong exactly with a sound query. -/
theorem validate_eq_ok {q : Query} : validate q = .ok () ↔ q.Sound := by
  have hlist : ∀ (error : QueryError) (qs : List Query), (∀ q ∈ qs, validate q = .ok () ↔ q.Sound) →
      ((if qs.isEmpty then .error error else validateAll qs) = .ok () ↔
        qs ≠ [] ∧ ∀ q ∈ qs, q.Sound) := by
    intro error qs ih
    cases qs with
    | nil => simp
    | cons q qs =>
      simp only [List.isEmpty_cons, Bool.false_eq_true, if_false, validateAll_eq_ok, ne_eq,
        List.cons_ne_nil, not_false_eq_true, true_and]
      exact forall_congr' fun q => imp_congr_right fun hq => ih q hq
  induction q using Query.induction with
  | rule r =>
    rw [validate, Sound, every_rule, HasParts, Selector.Named]
    cases r.selector with
    | «attribute» name =>
      cases h : Text.isBlankText name <;> simp [h]
    | _ => simp
  | all qs ih => rw [validate, hlist _ qs ih, Sound, every_all]; rfl
  | any qs ih => rw [validate, hlist _ qs ih, Sound, every_any]; rfl
  | not q ih =>
    rw [validate, Sound, every_not]
    exact ih.trans (and_iff_right trivial).symm
  | noneOf qs ih => rw [validate, hlist _ qs ih, Sound, every_noneOf]; rfl

theorem decode_eq_ok {n : Node} {q : Query} : decode n = .ok q ↔ ofNode n = .ok q ∧ q.Sound := by
  constructor
  · intro h
    obtain ⟨found, hfound, h⟩ := Node.bind_eq_ok.mp h
    obtain ⟨_, hvalid, h⟩ := Node.bind_eq_ok.mp h
    cases h
    exact ⟨hfound, validate_eq_ok.mp hvalid⟩
  · rintro ⟨hread, hsound⟩
    refine Node.bind_eq_ok.mpr ⟨q, hread, ?_⟩
    exact Node.bind_eq_ok.mpr ⟨(), validate_eq_ok.mpr hsound, rfl⟩

theorem ofNodes_cons_eq_ok {n : Node} {ns : List Node} {qs : List Query} :
    ofNodes (n :: ns) = .ok qs ↔
      ∃ q rest, ofNode n = .ok q ∧ ofNodes ns = .ok rest ∧ qs = q :: rest := by
  rw [ofNodes]
  cases ofNode n with
  | error e => simp
  | ok q =>
    rw [Node.map_eq_ok]
    constructor
    · rintro ⟨rest, hrest, rfl⟩
      exact ⟨q, rest, rfl, hrest, rfl⟩
    · rintro ⟨_, rest, hq, hrest, rfl⟩
      cases hq
      exact ⟨rest, hrest, rfl⟩

/-- Of nodes that are read each is read, and none is passed over. -/
theorem exists_of_ofNodes {ns : List Node} {qs : List Query} (h : ofNodes ns = .ok qs) :
    (ns = [] → qs = []) ∧ ∀ n ∈ ns, ∃ q ∈ qs, ofNode n = .ok q := by
  induction ns generalizing qs with
  | nil =>
    cases h
    simp
  | cons n ns ih =>
    obtain ⟨q, rest, hq, hrest, rfl⟩ := ofNodes_cons_eq_ok.mp h
    refine ⟨by simp, List.forall_mem_cons.mpr ⟨⟨q, List.mem_cons_self .., hq⟩, ?_⟩⟩
    intro m hm
    obtain ⟨p, hp, hread⟩ := (ih hrest).2 m hm
    exact ⟨p, List.mem_cons_of_mem _ hp, hread⟩

/-- Nodes that can be read as queries of a kind can be read together. -/
theorem exists_ofNodes {P : Query → Prop} {ns : List Node}
    (h : ∀ n ∈ ns, ∃ q, ofNode n = .ok q ∧ P q) :
    ∃ qs, ofNodes ns = .ok qs ∧ (qs = [] → ns = []) ∧ ∀ q ∈ qs, P q := by
  induction ns with
  | nil => exact ⟨[], rfl, by simp⟩
  | cons n ns ih =>
    obtain ⟨⟨q, hq, hP⟩, hns⟩ := List.forall_mem_cons.mp h
    obtain ⟨rest, hrest, -, hall⟩ := ih hns
    exact ⟨q :: rest, ofNodes_cons_eq_ok.mpr ⟨q, rest, hq, hrest, rfl⟩, by simp,
      List.forall_mem_cons.mpr ⟨hP, hall⟩⟩

theorem ofNodes_listToNodes {qs : List Query} (h : ∀ q ∈ qs, ofNode q.toNode = .ok q) :
    ofNodes (listToNodes qs) = .ok qs := by
  induction qs with
  | nil => rfl
  | cons q qs ih =>
    obtain ⟨hq, hqs⟩ := List.forall_mem_cons.mp h
    exact ofNodes_cons_eq_ok.mpr ⟨q, qs, hq, ih hqs, rfl⟩

/-- The names of the nodes that have any number of children, with what is made of these. -/
inductive Composite : String → (List Query → Query) → Prop
  | all : Composite "queryAnd" all
  | any : Composite "queryOr" any
  | noneOf : Composite "queryElse" noneOf

theorem ofNode_composite {name : String} {make : List Query → Query} (h : Composite name make)
    (value : Option String) (children : List Node) :
    ofNode ⟨name, value, children⟩ = (ofNodes children).map make := by
  cases h <;> unfold ofNode <;> simp [Rule.tag]

theorem ofNode_not (value : Option String) (child : Node) :
    ofNode ⟨"queryNot", value, [child]⟩ = (ofNode child).map not := by
  simp [ofNode, Rule.tag]

theorem ofNode_rule {n : Node} (h : n.name = Rule.tag) {q : Query} :
    ofNode n = .ok q ↔ ∃ r, Rule.ofNode n = .ok r ∧ rule r = q := by
  cases n with
  | mk name value children =>
    obtain rfl : name = Rule.tag := h
    unfold ofNode
    cases Rule.ofNode ⟨Rule.tag, value, children⟩ <;> simp

theorem Composite.sound_iff {name : String} {make : List Query → Query} (h : Composite name make)
    {qs : List Query} : (make qs).Sound ↔ qs ≠ [] ∧ ∀ q ∈ qs, q.Sound := by
  cases h with
  | all => exact every_all
  | any => exact every_any
  | noneOf => exact every_noneOf

theorem ofNode_children {name : String} {make : List Query → Query} (h : Composite name make)
    {qs : List Query} (hread : ∀ q ∈ qs, ofNode q.toNode = .ok q) :
    ofNode (.branch name (listToNodes qs)) = .ok (make qs) := by
  unfold Node.branch
  rw [ofNode_composite h, ofNodes_listToNodes hread]
  rfl

/-- A written query is read as itself, sound or not. -/
theorem ofNode_toNode {q : Query} (h : q.Numeric) : ofNode q.toNode = .ok q := by
  induction q using Query.induction with
  | rule r =>
    have hread : Rule.ofNode r.toNode = .ok r := Rule.ofNode_toNode (every_rule.mp h)
    exact (ofNode_rule rfl).mpr ⟨r, hread, rfl⟩
  | all qs ih => exact ofNode_children .all fun q hq => ih q hq ((every_all.mp h).2 q hq)
  | any qs ih => exact ofNode_children .any fun q hq => ih q hq ((every_any.mp h).2 q hq)
  | not q ih =>
    show ofNode ⟨"queryNot", none, [q.toNode]⟩ = _
    rw [ofNode_not, ih (every_not.mp h).2]
    rfl
  | noneOf qs ih => exact ofNode_children .noneOf fun q hq => ih q hq ((every_noneOf.mp h).2 q hq)

/-- Which trees are sound queries. -/
inductive Grammar : Node → Prop
  | rule {n : Node} (form : Rule.Form n) : Grammar n
  | all {value : Option String} {children : List Node} (filled : children ≠ [])
      (each : ∀ c ∈ children, Grammar c) : Grammar ⟨"queryAnd", value, children⟩
  | any {value : Option String} {children : List Node} (filled : children ≠ [])
      (each : ∀ c ∈ children, Grammar c) : Grammar ⟨"queryOr", value, children⟩
  | noneOf {value : Option String} {children : List Node} (filled : children ≠ [])
      (each : ∀ c ∈ children, Grammar c) : Grammar ⟨"queryElse", value, children⟩
  | not {value : Option String} {child : Node} (inner : Grammar child) :
      Grammar ⟨"queryNot", value, [child]⟩

theorem Composite.grammar {name : String} {make : List Query → Query} (h : Composite name make)
    (value : Option String) {children : List Node} (filled : children ≠ [])
    (each : ∀ c ∈ children, Grammar c) : Grammar ⟨name, value, children⟩ := by
  cases h with
  | all => exact .all filled each
  | any => exact .any filled each
  | noneOf => exact .noneOf filled each

/-- The ways in which a node is read. -/
theorem ofNode_cases {name : String} {value : Option String} {children : List Node} {q : Query}
    (h : ofNode ⟨name, value, children⟩ = .ok q) :
    (∃ r, name = Rule.tag ∧ Rule.ofNode ⟨name, value, children⟩ = .ok r ∧ q = rule r) ∨
      (∃ make qs, Composite name make ∧ ofNodes children = .ok qs ∧ q = make qs) ∨
      ∃ child inner, name = "queryNot" ∧ children = [child] ∧ ofNode child = .ok inner ∧
        q = not inner := by
  by_cases hrule : name = Rule.tag
  · obtain ⟨r, hread, rfl⟩ := (ofNode_rule hrule).mp h
    exact .inl ⟨r, hrule, hread, rfl⟩
  have composite : ∀ {make}, Composite name make →
      ∃ make qs, Composite name make ∧ ofNodes children = .ok qs ∧ q = make qs := by
    intro make hname
    rw [ofNode_composite hname] at h
    obtain ⟨qs, hqs, rfl⟩ := Node.map_eq_ok.mp h
    exact ⟨make, qs, hname, hqs, rfl⟩
  by_cases hall : name = "queryAnd"
  · subst hall
    exact .inr (.inl (composite .all))
  by_cases hany : name = "queryOr"
  · subst hany
    exact .inr (.inl (composite .any))
  by_cases hnone : name = "queryElse"
  · subst hnone
    exact .inr (.inl (composite .noneOf))
  unfold ofNode at h
  rw [if_neg hrule, if_neg hall, if_neg hany, if_neg hnone] at h
  split at h
  · next hnot =>
    split at h
    · cases h
    · next child =>
      obtain ⟨inner, hinner, rfl⟩ := Node.map_eq_ok.mp h
      exact .inr (.inr ⟨child, inner, hnot, rfl, hinner, rfl⟩)
    · split at h <;> cases h
  · cases h

/-- What is read as a sound query belongs to the grammar. -/
theorem grammar_of_ofNode {n : Node} {q : Query} (hread : ofNode n = .ok q) (hsound : q.Sound) :
    Grammar n := by
  induction n using Node.induction generalizing q with
  | step name value children ih =>
    rcases ofNode_cases hread with ⟨r, -, hr, rfl⟩ | ⟨make, qs, hname, hqs, rfl⟩ |
      ⟨child, inner, rfl, rfl, hinner, rfl⟩
    · exact .rule (Rule.exists_ofNode.mp ⟨r, hr, every_rule.mp hsound⟩)
    · obtain ⟨hfilled, heach⟩ := hname.sound_iff.mp hsound
      obtain ⟨hnone, hchildren⟩ := exists_of_ofNodes hqs
      refine hname.grammar value (fun hempty => hfilled (hnone hempty)) fun c hc => ?_
      obtain ⟨q, hq, hcq⟩ := hchildren c hc
      exact ih c hc hcq (heach q hq)
    · exact .not (ih child (List.mem_singleton.mpr rfl) hinner (every_not.mp hsound).2)

/-- All that belongs to the grammar is read as a sound query. -/
theorem exists_of_grammar {n : Node} (h : Grammar n) : ∃ q, ofNode n = .ok q ∧ q.Sound := by
  have composite : ∀ {name make}, Composite name make → ∀ value {children : List Node},
      children ≠ [] → (∀ c ∈ children, ∃ q, ofNode c = .ok q ∧ q.Sound) →
      ∃ q, ofNode ⟨name, value, children⟩ = .ok q ∧ q.Sound := by
    intro name make hname value children filled each
    obtain ⟨qs, hqs, hnone, hsound⟩ := exists_ofNodes each
    refine ⟨make qs, ?_, hname.sound_iff.mpr ⟨fun hempty => filled (hnone hempty), hsound⟩⟩
    rw [ofNode_composite hname, hqs]
    rfl
  induction h with
  | rule form =>
    obtain ⟨r, hread, hnamed⟩ := Rule.exists_ofNode.mpr form
    exact ⟨rule r, (ofNode_rule form.name).mpr ⟨r, hread, rfl⟩, every_rule.mpr hnamed⟩
  | all filled each ih => exact composite .all _ filled ih
  | any filled each ih => exact composite .any _ filled ih
  | noneOf filled each ih => exact composite .noneOf _ filled ih
  | not inner ih =>
    obtain ⟨q, hread, hsound⟩ := ih
    refine ⟨not q, ?_, every_not.mpr ⟨trivial, hsound⟩⟩
    rw [ofNode_not, hread]
    rfl

/-- A written query is read as itself, by the reader of sound queries exactly if it is sound; and
what that reader takes is the grammar. -/
theorem codec :
    (∀ q : Query, q.Numeric →
      ofNode q.toNode = .ok q ∧ (decode q.toNode = .ok q ↔ q.Sound)) ∧
    ∀ t : Node, (∃ q, decode t = .ok q) ↔ Grammar t := by
  constructor
  · intro q hnumeric
    have hread : ofNode q.toNode = .ok q := ofNode_toNode hnumeric
    exact ⟨hread, decode_eq_ok.trans (and_iff_right hread)⟩
  · intro t
    constructor
    · rintro ⟨q, hq⟩
      obtain ⟨hread, hsound⟩ := decode_eq_ok.mp hq
      exact grammar_of_ofNode hread hsound
    · intro hgrammar
      obtain ⟨q, hread, hsound⟩ := exists_of_grammar hgrammar
      exact ⟨q, decode_eq_ok.mpr ⟨hread, hsound⟩⟩

/-- A query that compares with minus zero and has a node without children: it is read as it is, but
not by the reader of sound queries. -/
theorem codec_unsound :
    (not (noneOf [onAttribute "load" .less (.float (.ofRank true 0)), any []])).Numeric ∧
    ofNode (not (noneOf [onAttribute "load" .less (.float (.ofRank true 0)), any []])).toNode =
      .ok (not (noneOf [onAttribute "load" .less (.float (.ofRank true 0)), any []])) ∧
    decode (not (noneOf [onAttribute "load" .less (.float (.ofRank true 0)), any []])).toNode ≠
      .ok (not (noneOf [onAttribute "load" .less (.float (.ofRank true 0)), any []])) := by
  have hnumeric :
      (not (noneOf [onAttribute "load" .less (.float (.ofRank true 0)), any []])).Numeric := by
    simp [Numeric, Every, parts, partsOfList, HasNumber, onAttribute, compare, Binary64.ofRank]
  obtain ⟨hread, hdecode⟩ := codec.1 _ hnumeric
  refine ⟨hnumeric, hread, fun h => ?_⟩
  have hsound := hdecode.mp h (any []) (by simp [parts, partsOfList])
  exact hsound rfl

end Query

end Rendezvous
