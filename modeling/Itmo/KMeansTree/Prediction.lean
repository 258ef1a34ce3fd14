import Itmo.KMeansTree.ClusterTree

/-! The way of a row through the tree of `tree.py`. The way is the list of the attributes the
loop of `predict` branches on, one for each edge. A node has a label of its group, in a leaf,
for an empty group, at the depth limit and from its children, so any row gets a label of the
training clustering, values never seen included. A branch leaves one column fewer and the limit
one level closer. -/

namespace Itmo.KMeansTree

open Lib

section Descent

variable {k d : ℕ} {K : Type} [DecidableEq K]

mutual

/-- The attributes that the descent branches on, and the `cluster` of its last node. -/
def Node.descend : Node k d K → Row d K → List (Fin d) × Fin (k + 1)
  | .mk none _ cluster, _ => ([], cluster)
  | .mk (some childAttr) nodes cluster, row =>
    nodes.descend childAttr (row childAttr) row cluster

def Nodes.descend : Nodes k d K → Fin d → K → Row d K → Fin (k + 1) → List (Fin d) × Fin (k + 1)
  | .nil, _, _, _, cluster => ([], cluster)
  | .cons value child rest, childAttr, v, row, cluster =>
    if v = value then (childAttr :: (child.descend row).1, (child.descend row).2)
    else rest.descend childAttr v row cluster

end

mutual

/-- The label at the end of the way is the prediction. -/
theorem Node.descend_snd : ∀ (node : Node k d K) (row : Row d K),
    (node.descend row).2 = node.predict row
  | .mk none _ _, _ => by rw [Node.descend, Node.predict]
  | .mk (some childAttr) nodes cluster, row => by
    rw [Node.descend, Node.predict, Nodes.descend_snd nodes]

theorem Nodes.descend_snd : ∀ (nodes : Nodes k d K) (childAttr : Fin d) (v : K) (row : Row d K)
    (cluster : Fin (k + 1)),
    (nodes.descend childAttr v row cluster).2 = nodes.predict v row cluster
  | .nil, _, _, _, _ => by rw [Nodes.descend, Nodes.predict]
  | .cons value child rest, childAttr, v, row, cluster => by
    rw [Nodes.descend, Nodes.predict]
    split_ifs
    · exact Node.descend_snd child row
    · exact Nodes.descend_snd rest childAttr v row cluster

end

/-- The descent ends at a node without a child for the value, or goes on in a child. -/
theorem Nodes.descend_create {child : K → Except TreeError (Node k d K)} {values : List K}
    {nodes : Nodes k d K} (h : Nodes.create child values = .ok nodes) (childAttr : Fin d) (v : K)
    (row : Row d K) (cluster : Fin (k + 1)) :
    nodes.descend childAttr v row cluster = ([], cluster) ∨
      ∃ value ∈ values, ∃ node, child value = .ok node ∧
        nodes.descend childAttr v row cluster =
          (childAttr :: (node.descend row).1, (node.descend row).2) := by
  induction values generalizing nodes with
  | nil =>
    cases h
    exact Or.inl (by rw [Nodes.descend])
  | cons value values ih =>
    obtain ⟨node, hnode, h⟩ := bind_ok h
    obtain ⟨rest, hrest, h⟩ := bind_ok h
    cases h
    rw [Nodes.descend]
    split_ifs
    · exact Or.inr ⟨value, List.mem_cons_self, node, hnode, rfl⟩
    · rcases ih hrest with hend | ⟨value', hvalue', node', hnode', hdescend⟩
      · exact Or.inl hend
      · exact Or.inr ⟨value', List.mem_cons_of_mem value hvalue', node', hnode', hdescend⟩

omit [DecidableEq K] in
/-- Every label of the children is that of a child. -/
theorem Nodes.mem_clusters_create {child : K → Except TreeError (Node k d K)} {values : List K}
    {nodes : Nodes k d K} (h : Nodes.create child values = .ok nodes) {label : Fin (k + 1)}
    (hlabel : label ∈ nodes.clusters) :
    ∃ value ∈ values, ∃ node, child value = .ok node ∧ node.cluster = label := by
  induction values generalizing nodes with
  | nil =>
    cases h
    cases hlabel
  | cons value values ih =>
    obtain ⟨node, hnode, h⟩ := bind_ok h
    obtain ⟨rest, hrest, h⟩ := bind_ok h
    cases h
    rcases List.mem_cons.mp hlabel with rfl | hlabel
    · exact ⟨value, List.mem_cons_self, node, hnode, rfl⟩
    · obtain ⟨value', hvalue', node', hnode', hcluster⟩ := ih hrest hlabel
      exact ⟨value', List.mem_cons_of_mem value hvalue', node', hnode', hcluster⟩

end Descent

/-! ### The labels of a group -/

section Labels

variable {k d : ℕ} {K : Type}

theorem mode_mem {labels : List (Fin (k + 1))} {label : Fin (k + 1)}
    (h : mode labels = .ok label) : label ∈ labels := by
  cases labels with
  | nil => cases h
  | cons first rest =>
    cases h
    exact firstMax_mem _ first rest

end Labels

/-! ### The ways -/

/-- What a subtree promises for every row: a label of its group, and a way over different
columns that are left and over no more levels than are left. -/
structure Guides {k d : ℕ} {K : Type} [DecidableEq K] (node : Node k d K) (columns : List (Fin d))
    (labels : List (Fin (k + 1))) (maxDepth : Option ℕ) (depth : ℕ) : Prop where
  cluster : node.cluster ∈ labels
  label : ∀ row, (node.descend row).2 ∈ labels
  nodup : ∀ row, (node.descend row).1.Nodup
  columns : ∀ row, (node.descend row).1 ⊆ columns
  levels : ∀ row, ∀ limit ∈ maxDepth, (node.descend row).1.length ≤ limit + 1 - depth

section Guides

variable {k d : ℕ} {K F : Type} [DecidableEq K] {columns : List (Fin d)}
  {labels : List (Fin (k + 1))} {maxDepth : Option ℕ} {depth : ℕ}

/-- A node without children ends every way. -/
theorem Guides.of_nil {childAttr : Option (Fin d)} {cluster : Fin (k + 1)}
    (hcluster : cluster ∈ labels) :
    Guides (.mk childAttr .nil cluster : Node k d K) columns labels maxDepth depth := by
  have hdescend : ∀ row : Row d K,
      (Node.mk childAttr .nil cluster : Node k d K).descend row = ([], cluster) := by
    intro row
    cases childAttr with
    | none => rw [Node.descend]
    | some childAttr => rw [Node.descend, Nodes.descend]
  exact {
    cluster := hcluster
    label := fun row => by rw [hdescend]; exact hcluster
    nodup := fun row => by rw [hdescend]; exact List.nodup_nil
    columns := fun row => by rw [hdescend]; exact List.nil_subset _
    levels := fun row limit _ => by rw [hdescend]; exact Nat.zero_le _ }

/-- A branch takes a column from the children, and a level. -/
theorem Guides.of_create {child : K → Except TreeError (Node k d K)} {values : List K}
    {nodes : Nodes k d K} (hnodes : Nodes.create child values = .ok nodes) {childAttr : Fin d}
    (hattr : childAttr ∈ columns) (hcolumns : columns.Nodup)
    (hdepth : ∀ limit ∈ maxDepth, depth ≤ limit) {cluster : Fin (k + 1)}
    (hcluster : cluster ∈ nodes.clusters)
    (hchild : ∀ value ∈ values, ∀ node, child value = .ok node →
      Guides node (columns.erase childAttr) labels maxDepth (depth + 1)) :
    Guides (.mk (some childAttr) nodes cluster) columns labels maxDepth depth := by
  have hlabel : cluster ∈ labels := by
    obtain ⟨value, hvalue, node, hnode, rfl⟩ := Nodes.mem_clusters_create hnodes hcluster
    exact (hchild value hvalue node hnode).cluster
  have hway : ∀ row, (Node.mk (some childAttr) nodes cluster).descend row = ([], cluster) ∨
      ∃ node, Guides node (columns.erase childAttr) labels maxDepth (depth + 1) ∧
        (Node.mk (some childAttr) nodes cluster).descend row =
          (childAttr :: (node.descend row).1, (node.descend row).2) := by
    intro row
    rw [Node.descend]
    refine (Nodes.descend_create hnodes childAttr _ row cluster).imp id ?_
    rintro ⟨value, hvalue, node, hnode, hdescend⟩
    exact ⟨node, hchild value hvalue node hnode, hdescend⟩
  refine ⟨hlabel, fun row => ?_, fun row => ?_, fun row => ?_, fun row limit hlimit => ?_⟩
  all_goals rcases hway row with hend | ⟨node, hguides, hdescend⟩
  · rw [hend]
    exact hlabel
  · rw [hdescend]
    exact hguides.label row
  · rw [hend]
    exact List.nodup_nil
  · rw [hdescend]
    refine List.nodup_cons.mpr ⟨fun hmem => ?_, hguides.nodup row⟩
    exact hcolumns.not_mem_erase (hguides.columns row hmem)
  · rw [hend]
    exact List.nil_subset _
  · rw [hdescend]
    exact List.cons_subset.mpr
      ⟨hattr, fun attr h => List.mem_of_mem_erase (hguides.columns row h)⟩
  · rw [hend]
    exact Nat.zero_le _
  · have hlevels := hguides.levels row limit hlimit
    have hleft := hdepth limit hlimit
    rw [hdescend, List.length_cons]
    omega

theorem Guides.mono {node : Node k d K} {labels' : List (Fin (k + 1))}
    (h : Guides node columns labels maxDepth depth) (hlabels : labels ⊆ labels') :
    Guides node columns labels' maxDepth depth :=
  { h with cluster := hlabels h.cluster, label := fun row => hlabels (h.label row) }

variable [LT K] [DecidableLT K] [Zero F] [Add F] [Sub F] [Mul F] [Div F] [Neg F] [NatCast F]
  [LT F] [DecidableLT F] [DecidableEq F] [Log2 F]

theorem guides_createNode {uniqueAttrs : Fin d → List K} {fuel : ℕ}
    {data : List (Clustered k d K)} {node : Node k d K}
    (hnode : createNode F uniqueAttrs maxDepth fuel columns data depth = .ok node)
    (hcolumns : columns.Nodup) :
    Guides node columns (data.map Prod.snd) maxDepth depth := by
  induction fuel generalizing columns data depth node with
  | zero => cases hnode
  | succ fuel ih =>
    unfold createNode at hnode
    split_ifs at hnode with hempty hone hdepth
    · obtain ⟨label, hmode, hleaf⟩ := bind_ok hnode
      cases hleaf
      exact Guides.of_nil (columnMode_mem hmode)
    · cases data with
      | nil => cases hnode
      | cons row rest =>
        cases hnode
        exact Guides.of_nil List.mem_cons_self
    · obtain ⟨childAttr, -, hnode⟩ := bind_ok hnode
      obtain ⟨label, hmode, hnode⟩ := bind_ok hnode
      cases hnode
      exact Guides.of_nil (columnMode_mem hmode)
    · obtain ⟨childAttr, hbest, hnode⟩ := bind_ok hnode
      obtain ⟨nodes, hnodes, hnode⟩ := bind_ok hnode
      obtain ⟨label, hmode, hnode⟩ := bind_ok hnode
      cases hnode
      have hlimit : ∀ limit ∈ maxDepth, depth ≤ limit := by
        rintro limit rfl
        exact Nat.not_lt.mp fun hlt => hdepth (decide_eq_true hlt)
      refine Guides.of_create hnodes (bestAttr_mem hbest) hcolumns hlimit (mode_mem hmode) ?_
      intro value _ child hchild
      dsimp only at hchild
      split_ifs at hchild
      · -- an empty group has the label of the whole one
        obtain ⟨label, hmode, hleaf⟩ := bind_ok hchild
        cases hleaf
        exact Guides.of_nil (columnMode_mem hmode)
      · refine (ih hchild (hcolumns.erase childAttr)).mono ?_
        exact List.map_subset _ List.filter_sublist.subset

variable [Zero K] [Add K] [Sub K] [Mul K] [Div K] [NatCast K] [Sqrt K]

/-- Any row gets a label of the training clustering, at the end of a way over different
attributes and over no more edges than attributes and levels. -/
theorem predict_bounded {table : Table d K} {initial : Centroids k d K} {passes : ℕ}
    {root : Node k d K} (hroot : clusterTree F table initial passes maxDepth = .ok root) :
    ∃ centroids, clusterCentroids table.iterrows passes initial = .left centroids ∧
      ∀ row : Row d K, root.predict row ∈ predict table.iterrows centroids ∧
        (root.descend row).2 = root.predict row ∧ (root.descend row).1.Nodup ∧
        (root.descend row).1.length ≤ maxDepth.elim d (min · d) := by
  unfold clusterTree at hroot
  cases hleft : clusterCentroids table.iterrows passes initial with
  | running =>
    rw [hleft] at hroot
    cases hroot
  | raised =>
    rw [hleft] at hroot
    cases hroot
  | left centroids =>
    rw [hleft] at hroot
    have hguides : Guides root (List.finRange d) (predict table.iterrows centroids) maxDepth 1 :=
      (guides_createNode hroot (List.nodup_finRange d)).mono fun label hlabel => by
        obtain ⟨p, hp, rfl⟩ := List.mem_map.mp hlabel
        exact (List.of_mem_zip hp).2
    refine ⟨centroids, rfl, fun row => ⟨?_, root.descend_snd row, hguides.nodup row, ?_⟩⟩
    · rw [← root.descend_snd row]
      exact hguides.label row
    · have hcolumns : (root.descend row).1.length ≤ d := by
        simpa using (hguides.nodup row).length_le_card
      cases hlimit : maxDepth with
      | none => exact hcolumns
      | some limit => exact le_min (hguides.levels row limit hlimit) hcolumns

end Guides

/-- A row with values the tree has not seen. -/
theorem predict_bounded_unseen :
    ∃ root, clusterTree ℚ largeIntegers rowCentroids 1 (some 1) = .ok root ∧
      (root.descend ![5, 7]).1.length ≤ min 1 2 := by
  have hok : (clusterTree ℚ largeIntegers rowCentroids 1 (some 1)).toBool = true := by
    decide +kernel
  cases hroot : clusterTree ℚ largeIntegers rowCentroids 1 (some 1) with
  | error e =>
    rw [hroot] at hok
    cases hok
  | ok root =>
    obtain ⟨_, -, h⟩ := predict_bounded hroot
    exact ⟨root, rfl, (h ![5, 7]).2.2.2⟩

end Itmo.KMeansTree
