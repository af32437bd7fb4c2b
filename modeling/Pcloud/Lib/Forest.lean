import Mathlib.Data.List.Infix
import Mathlib.Data.List.Nodup

/-!
# Forests

A forest is a list of leaves and branches, where a branch has a forest of its own below it. A
traversal lists each node before what is below it. Two traversals leave nodes out: one stays out of
the branches that fail a test, the other enters no key twice.
-/

inductive Forest (α β : Type*) where
  | nil
  | leaf (a : α) (rest : Forest α β)
  | branch (b : β) (below rest : Forest α β)

namespace Forest

variable {α β κ ν : Type*}

/-- A node and the branches above it, outermost first. -/
abbrev Node (α β : Type*) := List β × (α ⊕ β)

/-- The nodes of a forest that is below the branches `above`. -/
def nodes : Forest α β → List β → List (Node α β)
  | nil, _ => []
  | leaf a rest, above => (above, .inl a) :: rest.nodes above
  | branch b below rest, above => (above, .inr b) :: (below.nodes (above ++ [b]) ++ rest.nodes above)

/-- The branches with what is below each, in the order of the nodes. -/
def branches : Forest α β → List (β × Forest α β)
  | nil => []
  | leaf _ rest => rest.branches
  | branch b below rest => (b, below) :: (below.branches ++ rest.branches)

def leaves : Forest α β → List α
  | nil => []
  | leaf a rest => a :: rest.leaves
  | branch _ below rest => below.leaves ++ rest.leaves

def mapLeaves {γ : Type*} (f : α → γ) : Forest α β → Forest γ β
  | nil => nil
  | leaf a rest => leaf (f a) (rest.mapLeaves f)
  | branch b below rest => branch b (below.mapLeaves f) (rest.mapLeaves f)

/-- The nodes at the top. -/
def tops : Forest α β → List (α ⊕ β)
  | nil => []
  | leaf a rest => .inl a :: rest.tops
  | branch b _ rest => .inr b :: rest.tops

theorem nodes_eq_nil {forest : Forest α β} {above : List β} : forest.nodes above = [] ↔ forest = .nil := by
  cases forest
  all_goals simp [nodes]

theorem above_isPrefix {forest : Forest α β} {above : List β} {node : Node α β} (h : node ∈ forest.nodes above) :
    above <+: node.1 := by
  induction forest generalizing above with
  | nil => cases h
  | leaf a rest ih =>
    rcases List.mem_cons.mp h with rfl | h
    · exact List.prefix_refl _
    · exact ih h
  | branch b below rest ihBelow ihRest =>
    rcases List.mem_cons.mp h with rfl | h
    · exact List.prefix_refl _
    · rcases List.mem_append.mp h with hbelow | hrest
      · exact (List.prefix_append above [b]).trans (ihBelow hbelow)
      · exact ihRest hrest

/-! ## Names

Where no two nodes of a forest or of a branch share a name, no two nodes share a path. -/

section Names

variable (name : α ⊕ β → ν)

/-- The names from the outermost branch down to the node. -/
def path (node : Node α β) : List ν := node.1.map (fun b => name (.inr b)) ++ [name node.2]

def Distinct (forest : Forest α β) : Prop :=
  (forest.tops.map name).Nodup ∧ ∀ d ∈ forest.branches, (d.2.tops.map name).Nodup

theorem exists_top {forest : Forest α β} {above : List β} {node : Node α β} (h : node ∈ forest.nodes above) :
    ∃ top ∈ forest.tops, ∃ tail, path name node = above.map (fun b => name (.inr b)) ++ name top :: tail := by
  induction forest generalizing above with
  | nil => cases h
  | leaf a rest ih =>
    rcases List.mem_cons.mp h with rfl | h
    · exact ⟨.inl a, List.mem_cons_self, [], rfl⟩
    · obtain ⟨top, htop, hpath⟩ := ih h
      exact ⟨top, List.mem_cons_of_mem _ htop, hpath⟩
  | branch b below rest ihBelow ihRest =>
    rcases List.mem_cons.mp h with rfl | h
    · exact ⟨.inr b, List.mem_cons_self, [], rfl⟩
    · rcases List.mem_append.mp h with hbelow | hrest
      · obtain ⟨top, -, tail, hpath⟩ := ihBelow hbelow
        refine ⟨.inr b, List.mem_cons_self, name top :: tail, ?_⟩
        rw [hpath, List.map_append, List.append_assoc]
        rfl
      · obtain ⟨top, htop, hpath⟩ := ihRest hrest
        exact ⟨top, List.mem_cons_of_mem _ htop, hpath⟩

variable {name}

theorem path_ne_of_top {forest : Forest α β} {above : List β} {top : ν} (htop : top ∉ forest.tops.map name)
    {node : Node α β} (h : node ∈ forest.nodes above) (tail : List ν) :
    path name node ≠ above.map (fun b => name (.inr b)) ++ top :: tail := by
  intro heq
  obtain ⟨top', htop', tail', hpath⟩ := exists_top name h
  rw [hpath, List.append_cancel_left_eq, List.cons.injEq] at heq
  exact htop (List.mem_map.mpr ⟨top', htop', heq.1⟩)

theorem nodup_paths {forest : Forest α β} (hdistinct : forest.Distinct name) (above : List β) :
    ((forest.nodes above).map (path name)).Nodup := by
  induction forest generalizing above with
  | nil => exact List.nodup_nil
  | leaf a rest ih =>
    obtain ⟨htops, hbelow⟩ := hdistinct
    obtain ⟨htop, htops⟩ := List.nodup_cons.mp htops
    refine List.nodup_cons.mpr ⟨?_, ih ⟨htops, hbelow⟩ above⟩
    intro hmem
    obtain ⟨node, hnode, hpath⟩ := List.mem_map.mp hmem
    exact path_ne_of_top htop hnode [] hpath
  | branch b below rest ihBelow ihRest =>
    obtain ⟨htops, hbranches⟩ := hdistinct
    obtain ⟨htop, htops⟩ := List.nodup_cons.mp htops
    simp only [branches, List.forall_mem_cons, List.forall_mem_append] at hbranches
    obtain ⟨hhere, hbelow, hrest⟩ := hbranches
    simp only [nodes, List.map_cons, List.map_append, List.nodup_cons, List.nodup_append, List.mem_append]
    refine ⟨?_, ihBelow ⟨hhere, hbelow⟩ _, ihRest ⟨htops, hrest⟩ above, ?_⟩
    · rintro (hmem | hmem)
      · -- a node below has a longer path than the branch
        obtain ⟨node, hnode, hpath⟩ := List.mem_map.mp hmem
        obtain ⟨top, -, tail, hlong⟩ := exists_top name hnode
        have hlength := congrArg List.length (hlong.symm.trans hpath)
        simp only [path, List.map_append, List.length_append, List.length_map, List.length_cons,
          List.length_nil] at hlength
        omega
      · obtain ⟨node, hnode, hpath⟩ := List.mem_map.mp hmem
        exact path_ne_of_top htop hnode [] hpath
    · rintro _ hmem _ hmem' rfl
      obtain ⟨node, hnode, rfl⟩ := List.mem_map.mp hmem
      obtain ⟨node', hnode', hpath⟩ := List.mem_map.mp hmem'
      obtain ⟨top, -, tail, hlong⟩ := exists_top name hnode
      rw [List.map_append, List.append_assoc] at hlong
      exact path_ne_of_top htop hnode' (name top :: tail) (hpath.trans hlong)

end Names

/-! ## Staying out of branches -/

section Kept

variable (keep : α ⊕ β → Bool)

/-- The nodes that are kept, below branches that are kept. -/
def kept : Forest α β → List β → List (Node α β)
  | nil, _ => []
  | leaf a rest, above =>
    if keep (.inl a) then (above, .inl a) :: rest.kept above else rest.kept above
  | branch b below rest, above =>
    if keep (.inr b) then (above, .inr b) :: (below.kept (above ++ [b]) ++ rest.kept above)
    else rest.kept above

variable {keep}

theorem mem_kept_iff {forest : Forest α β} {above : List β} (habove : ∀ b ∈ above, keep (.inr b))
    {node : Node α β} :
    node ∈ forest.kept keep above ↔
      node ∈ forest.nodes above ∧ keep node.2 ∧ ∀ b ∈ node.1, keep (.inr b) := by
  induction forest generalizing above with
  | nil => simp [kept, nodes]
  | leaf a rest ih =>
    rw [kept, nodes, List.mem_cons]
    split
    next hkeep =>
      rw [List.mem_cons, ih habove]
      constructor
      · rintro (rfl | ⟨hnode, h⟩)
        · exact ⟨.inl rfl, hkeep, habove⟩
        · exact ⟨.inr hnode, h⟩
      · rintro ⟨rfl | hnode, h⟩
        · exact .inl rfl
        · exact .inr ⟨hnode, h⟩
    next hkeep =>
      rw [ih habove]
      constructor
      · rintro ⟨hnode, h⟩
        exact ⟨.inr hnode, h⟩
      · rintro ⟨rfl | hnode, h⟩
        · exact absurd h.1 hkeep
        · exact ⟨hnode, h⟩
  | branch b below rest ihBelow ihRest =>
    rw [kept, nodes, List.mem_cons, List.mem_append]
    split
    next hkeep =>
      have hbelow : ∀ c ∈ above ++ [b], keep (.inr c) := by
        intro c hc
        rcases List.mem_append.mp hc with hc | hc
        · exact habove c hc
        · rw [List.mem_singleton.mp hc]
          exact hkeep
      rw [List.mem_cons, List.mem_append, ihBelow hbelow, ihRest habove]
      constructor
      · rintro (rfl | ⟨hnode, h⟩ | ⟨hnode, h⟩)
        · exact ⟨.inl rfl, hkeep, habove⟩
        · exact ⟨.inr (.inl hnode), h⟩
        · exact ⟨.inr (.inr hnode), h⟩
      · rintro ⟨rfl | hnode | hnode, h⟩
        · exact .inl rfl
        · exact .inr (.inl ⟨hnode, h⟩)
        · exact .inr (.inr ⟨hnode, h⟩)
    next hkeep =>
      rw [ihRest habove]
      constructor
      · rintro ⟨hnode, h⟩
        exact ⟨.inr (.inr hnode), h⟩
      · rintro ⟨rfl | hnode | hnode, h⟩
        · exact absurd h.1 hkeep
        · have hb : b ∈ node.1 := (above_isPrefix hnode).subset (List.mem_append_right _ (List.mem_singleton_self b))
          exact absurd (h.2 b hb) hkeep
        · exact ⟨hnode, h⟩

end Kept

/-! ## Entering each key once -/

section Once

/-- The keys of the branches among the nodes. -/
def keysOf (key : β → κ) (nodes : List (Node α β)) : List κ := (nodes.filterMap (·.2.getRight?)).map key

@[simp]
theorem keysOf_branch (key : β → κ) (above : List β) (b : β) (nodes : List (Node α β)) :
    keysOf key ((above, .inr b) :: nodes) = key b :: keysOf key nodes := rfl

@[simp]
theorem keysOf_append (key : β → κ) (nodes nodes' : List (Node α β)) :
    keysOf key (nodes ++ nodes') = keysOf key nodes ++ keysOf key nodes' := by
  simp [keysOf]

variable {key : β → κ}

theorem keysOf_nodes (forest : Forest α β) (above : List β) :
    keysOf key (forest.nodes above) = forest.branches.map (key ·.1) := by
  induction forest generalizing above with
  | nil => rfl
  | leaf a rest ih => exact ih above
  | branch b below rest ihBelow ihRest =>
    rw [branches, List.map_cons, List.map_append, ← ihBelow (above ++ [b]), ← ihRest above, nodes, keysOf_branch,
      keysOf_append]

/-- Nothing is below a branch with a key of `seen` or of an earlier branch. -/
def EnteredOnce (key : β → κ) (forest : Forest α β) (seen : List κ) : Prop :=
  (∀ d ∈ forest.branches, key d.1 ∈ seen → d.2 = .nil) ∧
    forest.branches.Pairwise fun c d => key c.1 = key d.1 → d.2 = .nil

theorem enteredOnce_congr {forest : Forest α β} {seen seen' : List κ} (h : ∀ k, k ∈ seen ↔ k ∈ seen') :
    EnteredOnce key forest seen ↔ EnteredOnce key forest seen' := by
  simp only [EnteredOnce, h]

theorem enteredOnce_branch_of_mem {b : β} {below rest : Forest α β} {seen : List κ} (hseen : key b ∈ seen) :
    EnteredOnce key (.branch b below rest) seen ↔ below = .nil ∧ EnteredOnce key rest seen := by
  simp only [EnteredOnce, branches, List.forall_mem_cons, List.pairwise_cons]
  constructor
  · rintro ⟨⟨hhere, hseen'⟩, -, hpair⟩
    obtain rfl := hhere hseen
    exact ⟨rfl, hseen', hpair⟩
  · rintro ⟨rfl, hrest, hpair⟩
    exact ⟨⟨fun _ => rfl, hrest⟩, fun d hd heq => hrest d hd (heq ▸ hseen), hpair⟩

theorem enteredOnce_branch {b : β} {below rest : Forest α β} {seen : List κ} (hseen : key b ∉ seen) :
    EnteredOnce key (.branch b below rest) seen ↔
      EnteredOnce key below (key b :: seen) ∧
        EnteredOnce key rest (key b :: seen ++ below.branches.map (key ·.1)) := by
  simp only [EnteredOnce, branches, List.forall_mem_cons, List.forall_mem_append, List.pairwise_cons,
    List.pairwise_append]
  simp only [List.mem_append, List.mem_cons, List.mem_map]
  constructor
  · rintro ⟨⟨-, hbelow, hrest⟩, ⟨hbelow', hrest'⟩, hpair, hpair', hcross⟩
    refine ⟨⟨?_, hpair⟩, ?_, hpair'⟩
    · rintro d hd (heq | h)
      · exact hbelow' d hd heq.symm
      · exact hbelow d hd h
    · rintro d hd ((heq | h) | ⟨c, hc, heq⟩)
      · exact hrest' d hd heq.symm
      · exact hrest d hd h
      · exact hcross c hc d hd heq
  · rintro ⟨⟨hbelow, hpair⟩, hrest, hpair'⟩
    refine ⟨⟨fun h => absurd h hseen, ?_, ?_⟩, ⟨?_, ?_⟩, hpair, hpair', ?_⟩
    · exact fun d hd h => hbelow d hd (.inr h)
    · exact fun d hd h => hrest d hd (.inl (.inr h))
    · exact fun d hd heq => hbelow d hd (.inl heq.symm)
    · exact fun d hd heq => hrest d hd (.inl (.inl heq.symm))
    · exact fun c hc d hd heq => hrest d hd (.inr ⟨c, hc, heq⟩)

theorem append_eq_append_iff_of_sublist {xs xs' ys ys' : List α} (hxs : List.Sublist xs xs')
    (hys : List.Sublist ys ys') : xs ++ ys = xs' ++ ys' ↔ xs = xs' ∧ ys = ys' := by
  refine ⟨fun h => ?_, fun h => by rw [h.1, h.2]⟩
  have hlength := congrArg List.length h
  rw [List.length_append, List.length_append] at hlength
  have hle := hxs.length_le
  have hle' := hys.length_le
  exact ⟨hxs.eq_of_length (by omega), hys.eq_of_length (by omega)⟩

variable [DecidableEq κ]

variable (key) in
/-- The nodes that are met when no branch with a key of `seen` is entered, and the keys seen then. -/
def once : Forest α β → List β → List κ → List (Node α β) × List κ
  | nil, _, seen => ([], seen)
  | leaf a rest, above, seen =>
    let after := rest.once above seen
    ((above, .inl a) :: after.1, after.2)
  | branch b below rest, above, seen =>
    if key b ∈ seen then
      let after := rest.once above seen
      ((above, .inr b) :: after.1, after.2)
    else
      let inside := below.once (above ++ [b]) (key b :: seen)
      let after := rest.once above inside.2
      ((above, .inr b) :: (inside.1 ++ after.1), after.2)

theorem once_sublist (forest : Forest α β) (above : List β) (seen : List κ) :
    List.Sublist (forest.once key above seen).1 (forest.nodes above) := by
  induction forest generalizing above seen with
  | nil => exact List.Sublist.refl _
  | leaf a rest ih => exact (ih above seen).cons_cons _
  | branch b below rest ihBelow ihRest =>
    rw [once, nodes]
    split
    · exact ((ihRest above seen).trans (List.sublist_append_right _ _)).cons_cons _
    · exact ((ihBelow _ _).append (ihRest above _)).cons_cons _

theorem mem_seen_once_iff (forest : Forest α β) (above : List β) (seen : List κ) {k : κ} :
    k ∈ (forest.once key above seen).2 ↔ k ∈ seen ∨ k ∈ keysOf key (forest.once key above seen).1 := by
  induction forest generalizing above seen with
  | nil => simp [once, keysOf]
  | leaf a rest ih => exact ih above seen
  | branch b below rest ihBelow ihRest =>
    rw [once]
    split
    next hseen =>
      rw [ihRest]
      have hhere : k = key b → k ∈ seen := fun h => h ▸ hseen
      simp only [keysOf_branch, List.mem_cons]
      tauto
    next hseen =>
      rw [ihRest, ihBelow]
      simp only [keysOf_branch, keysOf_append, List.mem_cons, List.mem_append]
      tauto

theorem once_eq_nodes_iff (forest : Forest α β) (above : List β) (seen : List κ) :
    (forest.once key above seen).1 = forest.nodes above ↔ EnteredOnce key forest seen := by
  induction forest generalizing above seen with
  | nil => simp [once, nodes, EnteredOnce, branches]
  | leaf a rest ih =>
    have hcons : (above, .inl a) :: (rest.once key above seen).1 = (above, .inl a) :: rest.nodes above ↔
        EnteredOnce key rest seen := by
      rw [List.cons.injEq, ih]
      exact and_iff_right rfl
    exact hcons
  | branch b below rest ihBelow ihRest =>
    rw [once, nodes]
    split
    next hseen =>
      have hmet : List.Sublist (rest.once key above seen).1 (rest.nodes above) := once_sublist rest above seen
      have hsplit := append_eq_append_iff_of_sublist (List.nil_sublist (below.nodes (above ++ [b]))) hmet
      rw [enteredOnce_branch_of_mem hseen, ← ihRest above seen, List.cons.injEq, and_iff_right rfl]
      rwa [List.nil_append, @eq_comm _ [], nodes_eq_nil] at hsplit
    next hseen =>
      rw [enteredOnce_branch hseen, ← ihBelow (above ++ [b]), List.cons.injEq, and_iff_right rfl,
        append_eq_append_iff_of_sublist (once_sublist _ _ _) (once_sublist _ _ _), ihRest]
      refine and_congr_right fun hbelow => enteredOnce_congr fun k => ?_
      rw [mem_seen_once_iff, hbelow, keysOf_nodes, List.mem_append]

end Once

end Forest
