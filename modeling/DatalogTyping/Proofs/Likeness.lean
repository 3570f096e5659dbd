import DatalogTyping.Node.Build
import DatalogTyping.Proofs.Trees

/-!
# Likeness of trees

Two trees are alike if their roots are of one class, have the same plain data, and are
alike part by part: a part that is missing in one is missing in the other, single nodes
are alike, and lists are alike node by node (`Node.Alike`). Identities and spans do not
matter.

`Node.equals` does not look at parts. It compares children, and the children of a node are
those of all its parts in one list. For most labels the list can be taken apart again, as
at most one part of a node is a list (`Part.forall₂_of_forms`). A built-in aggregate is
different, because its target may be missing: a target and the first node of a body are
then one and the same child. So `equals` takes a target for the beginning of the body
(`Node.equals_iff_alike`), and is right about targets as long as they can be told from the
beginning of a body, say because targets are arguments and bodies hold none.
-/

namespace DatalogTyping

/-! ### Labels -/

namespace Label

/-- A piece of plain data. -/
inductive Datum where
  | text (text : String)
  | texts (texts : List String)
  | flag (flag : Bool)
  | representation (kind : Option NumericKind)
  | aggregation (op : AggregateOp)
  | relation (op : ComparisonOp)
  deriving DecidableEq

/-- The plain data of a label. Whether an aggregate has a target is not part of it. -/
def plain : Label → List Datum
  | var text | string text | functor text | call text | branch text | cast text | fold text
  | atom text | relationDecl text | recordDecl text | branchDecl text | adtDecl text =>
    [.text text]
  | numeral text fixed => [.text text, .representation fixed]
  | aggregate op _ => [.aggregation op]
  | comparison op => [.relation op]
  | field name other | subsetDecl name other | aliasDecl name other => [.text name, .text other]
  | functorDecl name stateful => [.text name, .flag stateful]
  | unionDecl name types => [.text name, .texts types]
  | wildcard | nil | counter | iteration | record | negation | clause => []

/-- Is this the label of a built-in aggregate with a target? -/
def isTargeted : Label → Bool
  | aggregate _ targeted => targeted
  | _ => false

variable {label other : Label}

theorem agrees_iff :
    label.agrees other ↔ label.className = other.className ∧ label.plain = other.plain := by
  constructor
  · intro h
    unfold agrees at h
    split at h
    · simpa [className, plain] using h
    · rw [of_decide_eq_true h]
      exact ⟨rfl, rfl⟩
  · rintro ⟨sameClass, samePlain⟩
    cases label <;> cases other <;> simp only [className, String.reduceEq] at sameClass <;>
      simp_all [agrees, plain]

/-- Labels agree if they differ in nothing but whether there is a target. -/
theorem eq_of_agrees (agree : label.agrees other) (targets : label.isTargeted = other.isTargeted) :
    label = other := by
  unfold agrees at agree
  split at agree
  · simpa [isTargeted, of_decide_eq_true agree] using targets
  · exact of_decide_eq_true agree

end Label

/-! ### Trees with the same labels -/

namespace Node

variable {a b : Node}

/-- The trees have the same labels throughout. -/
inductive Same : Node → Node → Prop
  | mk {a b : Node} (label : a.label = b.label)
      (children : List.Forall₂ Same a.children b.children) : Same a b

theorem Same.label (same : Same a b) : a.label = b.label := by
  cases same with
  | mk label _ => exact label

theorem Same.children (same : Same a b) : List.Forall₂ Same a.children b.children := by
  cases same with
  | mk _ children => exact children

theorem Same.symm (same : Same a b) : Same b a := by
  induction a using childInduction generalizing b with
  | step a ih =>
      refine .mk same.label.symm (List.Forall₂.flip ?_)
      exact forall₂_of_forall_mem same.children fun child hchild _ _ => ih child hchild

theorem Same.map_eq {α : Type} {f : Node → α} {nodes others : List Node}
    (same : List.Forall₂ Same nodes others)
    (step : ∀ node ∈ nodes, ∀ other, Same node other → f node = f other) :
    nodes.map f = others.map f :=
  map_eq_map_of_forall₂ (forall₂_of_forall_mem same fun node hnode other _ => step node hnode other)

theorem Same.text (same : Same a b) : a.text = b.text := by
  induction a using childInduction generalizing b with
  | step a ih =>
      have labels := map_eq same.children fun _ _ _ same => same.label
      have texts := map_eq same.children fun child hchild _ same => ih child hchild same
      rw [text_eq, text_eq, same.label, labels, texts]

/-- A functor declaration can be shown or not by the labels of its children alone. -/
theorem isLegible_functorDecl (id : NodeId) (span : Option Span) (name : String) (stateful : Bool)
    (children : List Node) :
    (mk id span (.functorDecl name stateful) children).isLegible =
      ((children.map Node.label).dropLast.all (fun label =>
          label.name?.isSome && label.typeName?.isSome) &&
        (children.map Node.label).getLast?.any fun label => label.typeName?.isSome) := by
  rw [isLegible, ← List.map_dropLast, List.all_map, List.getLast?_map]
  cases children.getLast? <;> rfl

theorem Same.isLegible (same : Same a b) : a.isLegible = b.isLegible := by
  induction a using childInduction generalizing b with
  | step a ih =>
      have labels := map_eq same.children fun _ _ _ same => same.label
      have legible : allLegible a.children = allLegible b.children := by
        rw [allLegible_eq, allLegible_eq,
          map_eq same.children fun child hchild _ same => ih child hchild same]
      have sameLabel := same.label
      obtain ⟨id, span, label, children⟩ := a
      obtain ⟨id', span', label', children'⟩ := b
      obtain rfl : label = label' := sameLabel
      cases label with
      | functorDecl name stateful =>
          rw [isLegible_functorDecl, isLegible_functorDecl]
          rw [show children.map Node.label = children'.map Node.label from labels]
      | _ => exact legible

theorem Same.legibleText (same : Same a b) : a.legibleText = b.legibleText := by
  rw [Node.legibleText, Node.legibleText, same.isLegible, same.text]

mutual

theorem same_copyFrom (next : NodeId) : ∀ root : Node, Same root (root.copyFrom next).1
  | mk _ _ _ children => .mk (by rw [copyFrom]; rfl) (by
      rw [copyFrom]
      exact same_copyAllFrom (next + 1) children)

theorem same_copyAllFrom (next : NodeId) : ∀ trees : List Node,
    List.Forall₂ Same trees (copyAllFrom next trees).1
  | [] => by
      rw [copyAllFrom]
      exact .nil
  | root :: rest => by
      rw [copyAllFrom]
      exact .cons (same_copyFrom next root) (same_copyAllFrom (root.copyFrom next).2 rest)

end

/-! ### Equality and targets -/

theorem equals_iff : a.equals b ↔ a.label.agrees b.label ∧
    List.Forall₂ (fun child other => child.equals other = true) a.children b.children := by
  have equalsAll_iff (nodes others : List Node) : equalsAll nodes others = true ↔
      List.Forall₂ (fun child other => child.equals other = true) nodes others := by
    induction nodes generalizing others with
    | nil => cases others <;> simp [equalsAll]
    | cons node rest ih => cases others <;> simp [equalsAll, ih]
  obtain ⟨id, span, label, children⟩ := a
  obtain ⟨id', span', label', children'⟩ := b
  rw [equals, Bool.and_eq_true, equalsAll_iff]
  rfl

theorem Same.equals (same : Same a b) : a.equals b := by
  induction a using childInduction generalizing b with
  | step a ih =>
      refine equals_iff.mpr ⟨Label.agrees_iff.mpr ⟨?_, ?_⟩, ?_⟩
      · rw [same.label]
      · rw [same.label]
      · exact forall₂_of_forall_mem same.children fun child hchild _ _ same => ih child hchild same

/-- For every node of the traversal, whether it is a built-in aggregate with a target. -/
def targets (root : Node) : List Bool := root.nodes.map fun node => node.label.isTargeted

theorem targets_eq (root : Node) :
    root.targets = root.label.isTargeted :: root.children.flatMap targets := by
  have targetsOf (nodes : List Node) :
      (nodesOf nodes).map (fun node => node.label.isTargeted) = nodes.flatMap targets := by
    induction nodes with
    | nil => rfl
    | cons node rest ih => rw [nodesOf, List.map_append, ih, List.flatMap_cons, targets]
  rw [targets, nodes_eq, List.map_cons, targetsOf]

theorem length_targets_of_equals (h : a.equals b) : a.targets.length = b.targets.length := by
  induction a using childInduction generalizing b with
  | step a ih =>
      have lengths := forall₂_of_forall_mem (equals_iff.mp h).2 fun child hchild other _ =>
        ih child hchild (b := other)
      rw [targets_eq a, targets_eq b, List.length_cons, List.length_cons, List.length_flatMap,
        List.length_flatMap, map_eq_map_of_forall₂ lengths]

/-- Lists of nodes that are equal one by one have their targets at the same places if each
two of the nodes have. -/
theorem forall₂_targets {nodes others : List Node}
    (equal : List.Forall₂ (fun node other => node.equals other = true) nodes others)
    (h : nodes.flatMap targets = others.flatMap targets) :
    List.Forall₂ (fun node other => node.equals other = true ∧ node.targets = other.targets)
      nodes others := by
  induction equal with
  | nil => exact .nil
  | cons first _ ih =>
      rw [List.flatMap_cons, List.flatMap_cons] at h
      obtain ⟨here, there⟩ := List.append_inj h (length_targets_of_equals first)
      exact .cons ⟨first, here⟩ (ih there)

/-- Equal trees with targets at the same places have the same labels. -/
theorem same_iff : Same a b ↔ a.equals b ∧ a.targets = b.targets := by
  constructor
  · intro same
    refine ⟨same.equals, ?_⟩
    induction a using childInduction generalizing b with
    | step a ih =>
        have children := Same.map_eq same.children fun child hchild _ same => ih child hchild same
        rw [targets_eq a, targets_eq b, same.label, List.flatMap_def, List.flatMap_def, children]
  · rintro ⟨equal, sameTargets⟩
    induction a using childInduction generalizing b with
    | step a ih =>
        obtain ⟨agree, equal⟩ := equals_iff.mp equal
        rw [targets_eq a, targets_eq b, List.cons.injEq] at sameTargets
        refine .mk (Label.eq_of_agrees agree sameTargets.1) ?_
        refine forall₂_of_forall_mem (forall₂_targets equal sameTargets.2) ?_
        intro child hchild other _ both
        exact ih child hchild both.1 both.2

/-- Every built-in aggregate has a target exactly if its first child is an argument. This is
so if all targets are arguments and no body holds one. -/
def TellsTargets (root : Node) : Prop :=
  ∀ node ∈ root.nodes, ∀ op targeted, node.label = .aggregate op targeted →
    (targeted ↔ ∃ first, node.children.head? = some first ∧ first.isArgument)

theorem isArgument_of_equals (h : a.equals b) : a.isArgument = b.isArgument := by
  have agree := (equals_iff.mp h).1
  unfold Label.agrees at agree
  split at agree
  · rename_i ha hb
    rw [isArgument, isArgument, ha, hb]
    rfl
  · rw [isArgument, isArgument, of_decide_eq_true agree]

/-- In equal trees that tell their targets, the targets are at the same places. -/
theorem targets_eq_of_equals (h : a.equals b) (ha : a.TellsTargets) (hb : b.TellsTargets) :
    a.targets = b.targets := by
  induction a using childInduction generalizing b with
  | step a ih =>
      obtain ⟨agree, equal⟩ := equals_iff.mp h
      have below : a.children.map targets = b.children.map targets := by
        refine map_eq_map_of_forall₂ (forall₂_of_forall_mem equal ?_)
        intro child hchild other hother equal
        exact ih child hchild equal (fun node hnode => ha node (mem_nodes_of_child hchild hnode))
          fun node hnode => hb node (mem_nodes_of_child hother hnode)
      have first : (∃ first, a.children.head? = some first ∧ first.isArgument) ↔
          ∃ first, b.children.head? = some first ∧ first.isArgument := by
        generalize a.children = nodes, b.children = others at equal
        cases equal with
        | nil => rfl
        | cons equal _ => simp [isArgument_of_equals equal]
      have here : a.label.isTargeted = b.label.isTargeted := by
        unfold Label.agrees at agree
        split at agree
        · rename_i hlabel hlabel'
          have tells := ha a a.mem_nodes_self _ _ hlabel
          have tells' := hb b b.mem_nodes_self _ _ hlabel'
          rw [hlabel, hlabel']
          exact Bool.eq_iff_iff.mpr (tells.trans (first.trans tells'.symm))
        · rw [of_decide_eq_true agree]
      rw [targets_eq a, targets_eq b, List.flatMap_def, List.flatMap_def, below, here]

end Node

/-! ### Parts -/

/-- What stands in a part of a node. -/
inductive Part where
  /-- Nothing: the part is missing. -/
  | missing
  | one (node : Node)
  | many (nodes : List Node)

namespace Part

/-- What a part can be like. -/
inductive Form where
  | missing
  | one
  | many
  deriving DecidableEq

def form : Part → Form
  | missing => .missing
  | one _ => .one
  | many _ => .many

/-- The nodes that stand in a part. -/
def nodes : Part → List Node
  | missing => []
  | one node => [node]
  | many nodes => nodes

/-- Both parts are missing, or the nodes in them are related one by one. -/
inductive Rel (R : Node → Node → Prop) : Part → Part → Prop
  | missing : Rel R missing missing
  | one {node other : Node} (related : R node other) : Rel R (one node) (one other)
  | many {nodes others : List Node} (related : List.Forall₂ R nodes others) :
      Rel R (many nodes) (many others)

variable {R : Node → Node → Prop} {parts others : List Part}

theorem Rel.form_eq {part other : Part} (related : Rel R part other) : part.form = other.form := by
  cases related <;> rfl

theorem Rel.nodes {part other : Part} (related : Rel R part other) :
    List.Forall₂ R part.nodes other.nodes := by
  cases related with
  | missing => exact .nil
  | one related => exact .cons related .nil
  | many related => exact related

theorem forall₂_flatMap_nodes (related : List.Forall₂ (Rel R) parts others) :
    List.Forall₂ R (parts.flatMap nodes) (others.flatMap nodes) := by
  induction related with
  | nil => exact .nil
  | cons first _ ih => exact List.rel_append first.nodes ih

theorem length_flatMap_nodes (listless : Form.many ∉ parts.map form) :
    (parts.flatMap nodes).length = (parts.map form).count .one := by
  induction parts with
  | nil => rfl
  | cons part rest ih =>
      rw [List.map_cons, List.mem_cons, not_or] at listless
      have others := ih listless.2
      cases part with
      | missing => simpa [nodes, form] using others
      | one node => simpa [nodes, form] using others
      | many nodes => exact absurd rfl listless.1

/-- With one list at most among the parts, it is clear in which part a node stands: parts of
the same forms are related if their nodes are, in one list. -/
theorem forall₂_of_forms (forms : parts.map form = others.map form)
    (once : (parts.map form).count .many ≤ 1)
    (related : List.Forall₂ R (parts.flatMap nodes) (others.flatMap nodes)) :
    List.Forall₂ (Rel R) parts others := by
  induction parts generalizing others with
  | nil =>
      obtain rfl : others = [] := List.map_eq_nil_iff.mp forms.symm
      exact .nil
  | cons part rest ih =>
      obtain ⟨other, rest', rfl, hform, hforms⟩ := List.map_eq_cons_iff.mp forms.symm
      rw [List.flatMap_cons, List.flatMap_cons] at related
      cases part with
      | missing =>
          cases other with
          | missing => exact .cons .missing (ih hforms.symm (by simpa [form] using once) related)
          | _ => cases hform
      | one node =>
          cases other with
          | one other =>
              obtain ⟨first, later⟩ := List.forall₂_cons.mp related
              exact .cons (.one first) (ih hforms.symm (by simpa [form] using once) later)
          | _ => cases hform
      | many nodes =>
          cases other with
          | many nodes' =>
              -- what comes after the list is as long on both sides, and so is the list
              have listless : Form.many ∉ rest.map form := by
                rw [← List.count_eq_zero]
                simpa [form] using once
              have after :
                  (rest.flatMap Part.nodes).length = (rest'.flatMap Part.nodes).length := by
                rw [length_flatMap_nodes listless, length_flatMap_nodes (hforms ▸ listless), hforms]
              have lengths : nodes.length = nodes'.length := by
                have total := related.length_eq
                simp only [List.length_append, after] at total
                exact Nat.add_right_cancel total
              have here := List.forall₂_take_append _ _ _ related
              have there := List.forall₂_drop_append _ _ _ related
              rw [Part.nodes, Part.nodes, ← lengths, List.take_left] at here
              rw [Part.nodes, Part.nodes, ← lengths, List.drop_left] at there
              refine .cons (.many here) (ih hforms.symm ?_ there)
              rw [List.count_eq_zero.mpr listless]
              exact Nat.zero_le 1
          | _ => cases hform

/-- Can that many nodes stand in parts of the given forms? -/
def Form.Take (forms : List Form) (count : Nat) : Prop :=
  forms.count .one ≤ count ∧ (Form.many ∈ forms ∨ count = forms.count .one)

instance (forms : List Form) (count : Nat) : Decidable (Form.Take forms count) :=
  inferInstanceAs (Decidable (_ ∧ _))

theorem count_le_length_flatMap (parts : List Part) :
    (parts.map form).count .one ≤ (parts.flatMap nodes).length := by
  induction parts with
  | nil => exact Nat.le_refl _
  | cons part rest ih =>
      cases part with
      | missing => simpa [nodes, form] using ih
      | one node => simpa [nodes, form] using ih
      | many others => simpa [nodes, form] using Nat.le_add_left_of_le ih

theorem exists_parts_iff {forms : List Form} (once : forms.count .many ≤ 1) {children : List Node} :
    (∃ parts : List Part, parts.map form = forms ∧ parts.flatMap nodes = children) ↔
      Form.Take forms children.length := by
  constructor
  · rintro ⟨parts, rfl, rfl⟩
    refine ⟨count_le_length_flatMap parts, ?_⟩
    exact Classical.or_iff_not_imp_left.mpr length_flatMap_nodes
  · rintro ⟨enough, exact⟩
    induction forms generalizing children with
    | nil =>
        obtain rfl : children = [] := by simpa using exact
        exact ⟨[], rfl, rfl⟩
    | cons kind rest ih =>
        cases kind with
        | missing =>
            obtain ⟨parts, hforms, hchildren⟩ := ih (by simpa using once) (by simpa using enough)
              (by simpa using exact)
            exact ⟨missing :: parts, by rw [List.map_cons, hforms, form], hchildren⟩
        | one =>
            cases children with
            | nil => simp at enough
            | cons node others =>
                obtain ⟨parts, hforms, hchildren⟩ := ih (by simpa using once)
                  (by simpa using enough) (by simpa using exact)
                refine ⟨one node :: parts, by rw [List.map_cons, hforms, form], ?_⟩
                rw [List.flatMap_cons, hchildren, nodes, List.singleton_append]
        | many =>
            -- the list takes all but the nodes that the parts after it need
            have listless : rest.count .many = 0 := by simpa using once
            have others : rest.count .one ≤ children.length := by simpa using enough
            have left : (children.drop (children.length - rest.count .one)).length =
                rest.count .one := by
              rw [List.length_drop, Nat.sub_sub_self others]
            obtain ⟨parts, hforms, hchildren⟩ := ih (by rw [listless]; exact Nat.zero_le 1)
              (Nat.le_of_eq left.symm) (.inr left)
            refine ⟨many (children.take (children.length - rest.count .one)) :: parts,
              by rw [List.map_cons, hforms, form], ?_⟩
            rw [List.flatMap_cons, hchildren, nodes, List.take_append_drop]

end Part

/-- The forms of the parts that nodes with this label have. -/
def Label.forms : Label → List Part.Form
  | functor _ | call _ | record | branch _ | atom _ | relationDecl _ | recordDecl _
  | branchDecl _ | adtDecl _ => [.many]
  | cast _ | negation => [.one]
  | comparison _ => [.one, .one]
  | clause => [.one, .many]
  | aggregate _ targeted => [if targeted then .one else .missing, .many]
  | fold _ => [.one, .one, .many]
  | functorDecl _ _ => [.many, .one]
  | var _ | wildcard | numeral _ _ | string _ | nil | counter | iteration | field _ _
  | subsetDecl _ _ | aliasDecl _ _ | unionDecl _ _ => []

namespace Label

variable {label other : Label}

theorem count_many_forms_le (label : Label) : label.forms.count .many ≤ 1 := by
  cases label with
  | aggregate op targeted => cases targeted <;> exact Nat.le_refl 1
  | _ => simp [forms]

theorem isTargeted_of_forms (agree : label.agrees other) (sameForms : label.forms = other.forms) :
    label.isTargeted = other.isTargeted := by
  unfold agrees at agree
  split at agree
  · rename_i targeted _ targeted'
    cases targeted <;> cases targeted' <;> simp_all [forms, isTargeted]
  · rw [of_decide_eq_true agree]

end Label

namespace Node

variable {a b : Node}

/-- The parts of a node: they have the forms that its label asks for, and the nodes in them
are its children. -/
structure HasParts (node : Node) (parts : List Part) : Prop where
  forms : parts.map Part.form = node.label.forms
  children : parts.flatMap Part.nodes = node.children

/-- Every node has its parts, as in all trees that are built by the constructors. -/
def Constructed (root : Node) : Prop := ∀ node ∈ root.nodes, ∃ parts, node.HasParts parts

theorem exists_hasParts_iff {node : Node} :
    (∃ parts, node.HasParts parts) ↔ Part.Form.Take node.label.forms node.children.length := by
  rw [← Part.exists_parts_iff node.label.count_many_forms_le]
  constructor
  · rintro ⟨parts, forms, children⟩
    exact ⟨parts, forms, children⟩
  · rintro ⟨parts, forms, children⟩
    exact ⟨parts, forms, children⟩

instance (root : Node) : Decidable root.Constructed :=
  decidable_of_iff (∀ node ∈ root.nodes,
      Part.Form.Take node.label.forms node.children.length) <| by
    simp only [Constructed, exists_hasParts_iff]

theorem Constructed.child {root child : Node} (constructed : root.Constructed)
    (hchild : child ∈ root.children) : child.Constructed :=
  fun node hnode => constructed node (mem_nodes_of_child hchild hnode)

theorem Constructed.children_eq_nil {root node : Node} (constructed : root.Constructed)
    (hnode : node ∈ root.nodes) (forms : node.label.forms = []) : node.children = [] := by
  obtain ⟨parts, hasParts⟩ := constructed node hnode
  obtain rfl : parts = [] := List.map_eq_nil_iff.mp (hasParts.forms.trans forms)
  exact hasParts.children.symm

theorem Same.constructed (same : Same a b) (ha : a.Constructed) : b.Constructed := by
  induction a using childInduction generalizing b with
  | step a ih =>
      intro node hnode
      rw [nodes_eq, List.mem_cons, mem_nodesOf] at hnode
      rcases hnode with rfl | ⟨child, hchild, hnode⟩
      · have own := exists_hasParts_iff.mp (ha a a.mem_nodes_self)
        rw [same.label, same.children.length_eq] at own
        exact exists_hasParts_iff.mpr own
      · obtain ⟨source, hsource, hsame⟩ := exists_mem_of_forall₂ same.children.flip hchild
        exact ih source hsource hsame (ha.child hsource) node hnode

/-- The trees are alike: of one class, with the same plain data, and alike part by part. -/
inductive Alike : Node → Node → Prop
  | mk {a b : Node} {parts others : List Part}
      (sameClass : a.label.className = b.label.className)
      (samePlain : a.label.plain = b.label.plain)
      (hasParts : a.HasParts parts) (hasOthers : b.HasParts others)
      (alike : List.Forall₂ (Part.Rel Alike) parts others) : Alike a b

theorem Alike.same (alike : Alike a b) : Same a b := by
  induction a using childInduction generalizing b with
  | step a ih =>
      cases alike with
      | mk sameClass samePlain hasParts hasOthers alike =>
          have agree := Label.agrees_iff.mpr ⟨sameClass, samePlain⟩
          have sameForms : a.label.forms = b.label.forms := by
            rw [← hasParts.forms, ← hasOthers.forms]
            exact map_eq_map_of_forall₂ (alike.imp fun _ _ => Part.Rel.form_eq)
          have children := Part.forall₂_flatMap_nodes alike
          rw [hasParts.children, hasOthers.children] at children
          refine .mk (Label.eq_of_agrees agree (Label.isTargeted_of_forms agree sameForms)) ?_
          exact forall₂_of_forall_mem children fun child hchild _ _ alike => ih child hchild alike

theorem Same.alike (same : Same a b) (ha : a.Constructed) (hb : b.Constructed) : Alike a b := by
  induction a using childInduction generalizing b with
  | step a ih =>
      obtain ⟨parts, hasParts⟩ := ha a a.mem_nodes_self
      obtain ⟨others, hasOthers⟩ := hb b b.mem_nodes_self
      have children : List.Forall₂ Alike a.children b.children :=
        forall₂_of_forall_mem same.children fun child hchild other hother same =>
          ih child hchild same (ha.child hchild) (hb.child hother)
      rw [← hasParts.children, ← hasOthers.children] at children
      have sameForms : parts.map Part.form = others.map Part.form := by
        rw [hasParts.forms, hasOthers.forms, same.label]
      have once : (parts.map Part.form).count .many ≤ 1 :=
        hasParts.forms ▸ a.label.count_many_forms_le
      exact .mk (by rw [same.label]) (by rw [same.label]) hasParts hasOthers
        (Part.forall₂_of_forms sameForms once children)

/-- Trees are alike if they are equal and have their targets at the same places. -/
theorem alike_iff (ha : a.Constructed) (hb : b.Constructed) :
    Alike a b ↔ a.equals b ∧ a.targets = b.targets :=
  ⟨fun alike => same_iff.mp alike.same, fun h => (same_iff.mpr h).alike ha hb⟩

end Node

/-! ### Targets as beginnings of bodies -/

namespace Label

/-- The label of an aggregate whose target, if it has one, counts as part of its body. -/
def untargeted : Label → Label
  | aggregate op _ => aggregate op false
  | label => label

theorem agrees_untargeted (label other : Label) :
    label.untargeted.agrees other.untargeted ↔ label.agrees other := by
  have same (label : Label) : label.untargeted.className = label.className ∧
      label.untargeted.plain = label.plain := by
    cases label <;> exact ⟨rfl, rfl⟩
  rw [agrees_iff, agrees_iff, (same label).1, (same label).2, (same other).1, (same other).2]

theorem isTargeted_untargeted (label : Label) : label.untargeted.isTargeted = false := by
  cases label <;> rfl

theorem take_untargeted {label : Label} {count : Nat} (h : Part.Form.Take label.forms count) :
    Part.Form.Take label.untargeted.forms count := by
  cases label with
  | aggregate op targeted => exact ⟨Nat.zero_le count, .inl (List.mem_of_elem_eq_true rfl)⟩
  | _ => exact h

end Label

namespace Node

variable {a b : Node}

mutual

/-- The tree in which the target of every built-in aggregate is the first node of its
body. -/
def untargeted : Node → Node
  | mk id span label children => mk id span label.untargeted (untargetedAll children)

def untargetedAll : List Node → List Node
  | [] => []
  | node :: rest => untargeted node :: untargetedAll rest

end

theorem untargetedAll_eq_map (nodes : List Node) : untargetedAll nodes = nodes.map untargeted := by
  induction nodes with
  | nil => rw [untargetedAll, List.map_nil]
  | cons node rest ih => rw [untargetedAll, ih, List.map_cons]

theorem label_untargeted (node : Node) : node.untargeted.label = node.label.untargeted := by
  obtain ⟨id, span, label, children⟩ := node
  rw [untargeted]
  rfl

theorem children_untargeted (node : Node) :
    node.untargeted.children = node.children.map untargeted := by
  obtain ⟨id, span, label, children⟩ := node
  rw [untargeted, untargetedAll_eq_map]
  rfl

theorem equals_untargeted : a.untargeted.equals b.untargeted ↔ a.equals b := by
  induction a using childInduction generalizing b with
  | step a ih =>
      rw [equals_iff, equals_iff, label_untargeted, label_untargeted, Label.agrees_untargeted,
        children_untargeted, children_untargeted, List.forall₂_map_left_iff,
        List.forall₂_map_right_iff]
      refine and_congr_right fun _ => ⟨fun equal => ?_, fun equal => ?_⟩
      · exact forall₂_of_forall_mem equal fun child hchild _ _ => (ih child hchild).mp
      · exact forall₂_of_forall_mem equal fun child hchild _ _ => (ih child hchild).mpr

theorem targets_untargeted (root : Node) :
    root.untargeted.targets = root.targets.map fun _ => false := by
  induction root using childInduction with
  | step root ih =>
      rw [targets_eq, targets_eq root, label_untargeted, Label.isTargeted_untargeted,
        children_untargeted, List.flatMap_map, List.map_cons, List.map_flatMap]
      congr 1
      exact List.flatMap_congr fun child hchild => ih child hchild

theorem Constructed.untargeted {root : Node} (constructed : root.Constructed) :
    root.untargeted.Constructed := by
  induction root using childInduction with
  | step root ih =>
      intro node hnode
      rw [nodes_eq, children_untargeted, List.mem_cons, mem_nodesOf] at hnode
      rcases hnode with rfl | ⟨child, hchild, hnode⟩
      · rw [exists_hasParts_iff, label_untargeted, children_untargeted, List.length_map]
        exact Label.take_untargeted
          (exists_hasParts_iff.mp (constructed root root.mem_nodes_self))
      · obtain ⟨source, hsource, rfl⟩ := List.mem_map.mp hchild
        exact ih source hsource (constructed.child hsource) node hnode

/-- `p(x) :- x = sum y : { q(y) }.`, numbered from `next` on. -/
def sumClause (next : NodeId) (span : Option Span) : Node :=
  let x := mk (next + 3) span (.var "x") []
  let q := mk (next + 6) none (.atom "q") [mk (next + 7) none (.var "y") []]
  let sum := mk (next + 4) span (.aggregate .sum true) [mk (next + 5) none (.var "y") [], q]
  mk next none .clause
    [mk (next + 1) none (.atom "p") [mk (next + 2) none (.var "x") []],
      mk (next + 8) none (.comparison .eq) [x, sum]]

theorem sumClause_constructed (next : NodeId) (span : Option Span) :
    (sumClause next span).Constructed := by
  intro node hnode
  rw [exists_hasParts_iff]
  revert node
  simp [sumClause, nodes, nodesOf, label, children, Label.forms, Part.Form.Take]

theorem sumClause_tellsTargets (next : NodeId) (span : Option Span) :
    (sumClause next span).TellsTargets := by
  simp [TellsTargets, sumClause, nodes, nodesOf, label, children, isArgument, Label.isArgument]

end Node

/-! ### A target taken for a body -/

/-- An aggregate with the target `x` and an empty body. -/
def Build.sumOfTarget : Build Node := do
  aggregate .sum (some (← var "x")) []

/-- An aggregate without a target, whose body is `x`. -/
def Build.sumOfBody : Build Node := do
  aggregate .sum none [← var "x"]

end DatalogTyping
