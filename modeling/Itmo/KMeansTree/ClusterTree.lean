import Itmo.KMeansTree.KMeans
import Itmo.Lib.Except
import Itmo.Lib.FirstBy
import Mathlib.Data.List.Sort
import Mathlib.Data.Rat.Sqrt
import Mathlib.Data.Nat.Size
import Mathlib.Order.OrderDual

/-! The tree of `tree.py` over the clusters of `kmeans.py`. A table hands out its
values in two ways: a column as it is stored, and a row of `iterrows` with every
value converted to the type all columns share. The tree is built from the columns
and read with the rows. Where the conversion changes no value, the tree built
without a depth limit gives every row the label it was built with: a leaf is a
group of rows with one label, or a group of equal rows. -/

namespace Itmo.KMeansTree

open Lib

/-- `math.log2`. -/
class Log2 (F : Type*) where
  log2 : F → F

/-- A table without missing values: the rows as the columns store them, and the
conversion to the type all columns share. -/
structure Table (d : ℕ) (K : Type*) where
  rows : List (Row d K)
  common : K → K

/-- The row that `iterrows` gives for a stored one. -/
def Table.series {d : ℕ} {K : Type*} (table : Table d K) (row : Row d K) : Row d K :=
  fun attr => table.common (row attr)

def Table.iterrows {d : ℕ} {K : Type*} (table : Table d K) : List (Row d K) :=
  table.rows.map table.series

inductive TreeError where
  | zeroDivision
  | indexError
  | emptyMax
  | statisticsError
  | notClustered
  | outOfFuel
  deriving DecidableEq

/-- A row with its cluster. -/
abbrev Clustered (k d : ℕ) (K : Type*) := Row d K × Fin (k + 1)

/-! ### Nodes -/

mutual

inductive Node (k d : ℕ) (K : Type) where
  | mk (childAttr : Option (Fin d)) (nodes : Nodes k d K) (cluster : Fin (k + 1))

/-- The dictionary `nodes`, in the order of insertion. -/
inductive Nodes (k d : ℕ) (K : Type) where
  | nil
  | cons (value : K) (child : Node k d K) (rest : Nodes k d K)

end

section

variable {k d : ℕ} {K : Type}

def Node.cluster : Node k d K → Fin (k + 1)
  | .mk _ _ cluster => cluster

/-- The `cluster` of every child. -/
def Nodes.clusters : Nodes k d K → List (Fin (k + 1))
  | .nil => []
  | .cons _ child rest => child.cluster :: rest.clusters

def leaf (cluster : Fin (k + 1)) : Node k d K := .mk none .nil cluster

variable [DecidableEq K]

mutual

/-- The descent of `ClusterTree.predict` from a node. -/
def Node.predict : Node k d K → Row d K → Fin (k + 1)
  | .mk none _ cluster, _ => cluster
  | .mk (some childAttr) nodes cluster, row => nodes.predict (row childAttr) row cluster

/-- The descent into the child of a value, or the cluster of the node without one. -/
def Nodes.predict : Nodes k d K → K → Row d K → Fin (k + 1) → Fin (k + 1)
  | .nil, _, _, cluster => cluster
  | .cons value child rest, v, row, cluster =>
    if v = value then child.predict row else rest.predict v row cluster

end

/-- The children of the values, one call each. -/
def Nodes.create (child : K → Except TreeError (Node k d K)) :
    List K → Except TreeError (Nodes k d K)
  | [] => .ok .nil
  | value :: values => do
    let node ← child value
    let rest ← Nodes.create child values
    return .cons value node rest

theorem Nodes.predict_create {child : K → Except TreeError (Node k d K)} {values : List K}
    {nodes : Nodes k d K} (h : Nodes.create child values = .ok nodes) {v : K} (hv : v ∈ values)
    (row : Row d K) (cluster : Fin (k + 1)) :
    ∃ node, child v = .ok node ∧ nodes.predict v row cluster = node.predict row := by
  induction values generalizing nodes with
  | nil => cases hv
  | cons value values ih =>
    obtain ⟨node, hnode, h⟩ := bind_ok h
    obtain ⟨rest, hrest, h⟩ := bind_ok h
    cases h
    unfold Nodes.predict
    by_cases hvalue : v = value
    · rw [if_pos hvalue, hvalue]
      exact ⟨node, hnode, rfl⟩
    · rw [if_neg hvalue]
      exact ih hrest ((List.mem_cons.mp hv).resolve_left hvalue)

omit [DecidableEq K] in
theorem Nodes.create_error {child : K → Except TreeError (Node k d K)} {values : List K}
    {e : TreeError} (h : Nodes.create child values = .error e) :
    ∃ value ∈ values, child value = .error e := by
  induction values with
  | nil => cases h
  | cons value values ih =>
    rcases bind_error h with h | ⟨node, -, h⟩
    · exact ⟨value, List.mem_cons_self, h⟩
    · rcases bind_error h with h | ⟨rest, -, h⟩
      · obtain ⟨value', hvalue', h⟩ := ih h
        exact ⟨value', List.mem_cons_of_mem value hvalue', h⟩
      · cases h

end

/-! ### The gain of an attribute -/

section

variable {α κ : Type*} [DecidableEq κ] [LT κ] [DecidableLT κ]

/-- The groups of `groupby`, in ascending order of their keys. -/
def groupby (key : α → κ) (data : List α) : List (List α) :=
  ((firstBy id (data.map key)).insertionSort fun a b => ¬ b < a).map fun value =>
    data.filter (key · = value)

/-- The first maximum, as `max` of Python finds it. -/
def firstMax {F : Type*} [LT F] [DecidableLT F] (key : α → F) (best : α) (l : List α) : α :=
  firstMin (fun a => OrderDual.toDual (key a)) best l

omit [DecidableEq κ] [LT κ] [DecidableLT κ] in
theorem firstMax_mem {F : Type*} [LT F] [DecidableLT F] (key : α → F) (best : α) (l : List α) :
    firstMax key best l ∈ best :: l :=
  firstMin_mem _ best l

end

section

variable {k d : ℕ} {K F : Type} [DecidableEq K] [LT K] [DecidableLT K]
  [Zero F] [Add F] [Sub F] [Mul F] [Div F] [Neg F] [NatCast F] [LT F] [DecidableLT F]
  [DecidableEq F] [Log2 F]

/-- `DataFrame.size`, with the column of the clusters. -/
def size (columns : List (Fin d)) (data : List (Clustered k d K)) : ℕ :=
  data.length * (columns.length + 1)

variable (F) in
def freq (columns : List (Fin d)) (part data : List (Clustered k d K)) : F :=
  (size columns part : F) / (size columns data : F)

variable (F) in
def info (columns : List (Fin d)) (data : List (Clustered k d K)) : F :=
  -((1 : ℕ) : F) * sum ((groupby Prod.snd data).map fun cluster =>
    freq F columns cluster data * Log2.log2 (freq F columns cluster data))

variable (F) in
def infoAttr (columns : List (Fin d)) (data : List (Clustered k d K)) (attr : Fin d) : F :=
  sum ((groupby (fun row => row.1 attr) data).map fun subdata =>
    freq F columns subdata data * info F columns subdata)

variable (F) in
def split (columns : List (Fin d)) (data : List (Clustered k d K)) (attr : Fin d) : F :=
  -((1 : ℕ) : F) * sum ((groupby (fun row => row.1 attr) data).map fun subdata =>
    freq F columns subdata data * Log2.log2 (freq F columns subdata data))

variable (F) in
def gain (columns : List (Fin d)) (data : List (Clustered k d K)) (attr : Fin d) :
    Except TreeError F :=
  if split F columns data attr = 0 then .error .zeroDivision
  else .ok ((info F columns data - infoAttr F columns data attr) / split F columns data attr)

variable (F) in
/-- The gains of all attributes, and the first attribute of the greatest. -/
def bestAttr (columns : List (Fin d)) (data : List (Clustered k d K)) :
    Except TreeError (Fin d) := do
  let gains ← columns.mapM fun attr => return (attr, ← gain F columns data attr)
  match gains with
  | [] => .error .emptyMax
  | first :: rest => return (firstMax Prod.snd first rest).1

/-! ### The tree -/

/-- `mode().iloc[0]` of the clusters: the least of the most frequent ones. -/
def columnMode (data : List (Clustered k d K)) : Except TreeError (Fin (k + 1)) :=
  if data.isEmpty then .error .indexError
  else .ok (firstMax (fun j => (data.map Prod.snd).count j) ⟨0, k.succ_pos⟩
    ((List.finRange k).map Fin.succ))

/-- `statistics.mode`: the first of the most frequent ones. -/
def mode : List (Fin (k + 1)) → Except TreeError (Fin (k + 1))
  | [] => .error .statisticsError
  | first :: rest => .ok (firstMax (fun j => (first :: rest).count j) first rest)

def nunique (data : List (Clustered k d K)) : ℕ := (firstBy id (data.map Prod.snd)).length

variable (F) in
/-- `create_node`; every call below drops a column, so their number bounds the depth. -/
def createNode (uniqueAttrs : Fin d → List K) (maxDepth : Option ℕ) :
    ℕ → List (Fin d) → List (Clustered k d K) → ℕ → Except TreeError (Node k d K)
  | 0, _, _, _ => .error .outOfFuel
  | fuel + 1, columns, data, currentDepth =>
    if columns.isEmpty then do
      return leaf (← columnMode data)
    else if nunique data = 1 then
      match data with
      | [] => .error .indexError
      | row :: _ => .ok (leaf row.2)
    else do
      let childAttr ← bestAttr F columns data
      if maxDepth.any (· < currentDepth) then
        return .mk (some childAttr) .nil (← columnMode data)
      let nodes ← Nodes.create (fun value =>
        let attrGroup := data.filter fun row => row.1 childAttr = value
        if attrGroup.isEmpty then do return leaf (← columnMode data)
        else createNode uniqueAttrs maxDepth fuel (columns.erase childAttr) attrGroup
          (currentDepth + 1)) (uniqueAttrs childAttr)
      return .mk (some childAttr) nodes (← mode nodes.clusters)

def uniqueAttrs (table : Table d K) (attr : Fin d) : List K :=
  firstBy id (table.rows.map fun row => row attr)

variable [Zero K] [Add K] [Sub K] [Mul K] [Div K] [NatCast K] [Sqrt K]

variable (F) in
/-- `ClusterTree.__init__`, with the centroids `kmeans` draws first and a number of
passes of its loop. -/
def clusterTree (table : Table d K) (initial : Centroids k d K) (passes : ℕ)
    (maxDepth : Option ℕ) : Except TreeError (Node k d K) :=
  match clusterCentroids table.iterrows passes initial with
  | .left centroids =>
    createNode F (uniqueAttrs table) maxDepth (d + 1) (List.finRange d)
      (table.rows.zip (predict table.iterrows centroids)) 1
  | _ => .error .notClustered

/-! ### The labels of a leaf -/

omit [LT K] [DecidableLT K] [DecidableEq K] [Zero K] [Add K] [Sub K] [Mul K] [Div K] [NatCast K]
  [Sqrt K] in
/-- The mode is a label of the rows. -/
theorem columnMode_mem {data : List (Clustered k d K)} {label : Fin (k + 1)}
    (h : columnMode data = .ok label) : label ∈ data.map Prod.snd := by
  rw [columnMode] at h
  split_ifs at h with hempty
  cases h
  obtain ⟨row, hrow⟩ := List.exists_mem_of_ne_nil _ fun hnil => hempty (List.isEmpty_iff.mpr hnil)
  -- the label of some row occurs, and the mode occurs as often
  have hcount : 0 < (data.map Prod.snd).count row.2 :=
    List.count_pos_iff.mpr (List.mem_map_of_mem hrow)
  have hall : row.2 ∈ 0 :: (List.finRange k).map Fin.succ := by
    rw [← List.finRange_succ]
    exact List.mem_finRange _
  have hmost := firstMin_le (fun j => OrderDual.toDual ((data.map Prod.snd).count j)) 0
    ((List.finRange k).map Fin.succ) row.2 hall
  exact List.count_pos_iff.mp (lt_of_lt_of_le hcount hmost)

omit [LT K] [DecidableLT K] [DecidableEq K] [Zero K] [Add K] [Sub K] [Mul K] [Div K] [NatCast K]
  [Sqrt K] in
/-- The mode of rows with one label is that label. -/
theorem columnMode_eq {data : List (Clustered k d K)} {mode : Fin (k + 1)}
    (h : columnMode data = .ok mode) (hone : ∀ p ∈ data, ∀ q ∈ data, p.2 = q.2)
    {row : Clustered k d K} (hrow : row ∈ data) : mode = row.2 := by
  obtain ⟨p, hp, hlabel⟩ := List.mem_map.mp (columnMode_mem h)
  exact hlabel.symm.trans (hone p hp row hrow)

omit [LT K] [DecidableLT K] [DecidableEq K] [Zero K] [Add K] [Sub K] [Mul K] [Div K] [NatCast K]
  [Sqrt K] in
theorem label_eq_of_nunique {data : List (Clustered k d K)} (h : nunique data = 1)
    {p q : Clustered k d K} (hp : p ∈ data) (hq : q ∈ data) : p.2 = q.2 := by
  unfold nunique at h
  obtain ⟨label, hlabel⟩ := List.length_eq_one_iff.mp h
  have hmem : ∀ r ∈ data, r.2 = label := by
    intro r hr
    have hr' : r.2 ∈ firstBy id (data.map Prod.snd) := mem_firstBy_id (List.mem_map_of_mem hr)
    rw [hlabel] at hr'
    exact List.mem_singleton.mp hr'
  exact (hmem p hp).trans (hmem q hq).symm

/-! ### The tree on its own rows -/

omit [LT K] [DecidableLT K] [Zero K] [Add K] [Sub K] [Mul K] [Div K] [NatCast K] [Sqrt K] in
/-- Rows of one group have the same value in its column. -/
theorem agree_of_erase {columns : List (Fin d)} {data : List (Clustered k d K)} {attr : Fin d}
    {value : K} {p q : Clustered k d K}
    (hp : p ∈ data.filter fun row => row.1 attr = value)
    (hq : q ∈ data.filter fun row => row.1 attr = value)
    (h : ∀ a ∈ columns.erase attr, p.1 a = q.1 a) : ∀ a ∈ columns, p.1 a = q.1 a := by
  intro a ha
  by_cases hattr : a = attr
  · rw [hattr]
    exact (of_decide_eq_true (List.mem_filter.mp hp).2).trans
      (of_decide_eq_true (List.mem_filter.mp hq).2).symm
  · exact h a ((List.mem_erase_of_ne hattr).mpr ha)

omit [Zero K] [Add K] [Sub K] [Mul K] [Div K] [NatCast K] [Sqrt K] in
/-- A tree without a depth limit gives its rows their labels, when rows that agree
on the columns left have one label. -/
theorem createNode_predict {uniqueAttrs : Fin d → List K} {fuel : ℕ} {columns : List (Fin d)}
    {data : List (Clustered k d K)} {depth : ℕ} {node : Node k d K}
    (hnode : createNode F uniqueAttrs none fuel columns data depth = .ok node)
    (hvalues : ∀ p ∈ data, ∀ attr, p.1 attr ∈ uniqueAttrs attr)
    (hlabels : ∀ p ∈ data, ∀ q ∈ data, (∀ attr ∈ columns, p.1 attr = q.1 attr) → p.2 = q.2) :
    ∀ p ∈ data, node.predict p.1 = p.2 := by
  induction fuel generalizing columns data depth node with
  | zero => cases hnode
  | succ fuel ih =>
    intro p hp
    unfold createNode at hnode
    split_ifs at hnode with hcolumns hone hdepth
    · -- no column is left, so all rows of the group agree
      have hcols : columns = [] := List.isEmpty_iff.mp hcolumns
      have hsame : ∀ p ∈ data, ∀ q ∈ data, p.2 = q.2 := by
        intro p hp q hq
        apply hlabels p hp q hq
        intro attr hattr
        rw [hcols] at hattr
        cases hattr
      obtain ⟨label, hmode, hleaf⟩ := bind_ok hnode
      cases hleaf
      exact columnMode_eq hmode hsame hp
    · cases hdata : data with
      | nil =>
        rw [hdata] at hp
        cases hp
      | cons first rest =>
        subst hdata
        cases hnode
        exact label_eq_of_nunique hone List.mem_cons_self hp
    · cases hdepth
    · obtain ⟨childAttr, -, hnode⟩ := bind_ok hnode
      obtain ⟨nodes, hnodes, hnode⟩ := bind_ok hnode
      obtain ⟨label, -, hnode⟩ := bind_ok hnode
      cases hnode
      obtain ⟨child, hchild, hpredict⟩ := Nodes.predict_create hnodes
        (hvalues p hp childAttr) p.1 label
      -- the row is in the group its value selects, so the child is a subtree
      have hgroup : p ∈ data.filter fun row => row.1 childAttr = p.1 childAttr :=
        List.mem_filter.mpr ⟨hp, decide_eq_true rfl⟩
      dsimp only at hchild
      rw [if_neg (by rw [List.isEmpty_iff]; exact List.ne_nil_of_mem hgroup)] at hchild
      refine hpredict.trans (ih hchild ?_ ?_ p hgroup)
      · intro q hq
        exact hvalues q (List.mem_of_mem_filter hq)
      · intro q hq r hr hagree
        apply hlabels q (List.mem_of_mem_filter hq) r (List.mem_of_mem_filter hr)
        exact agree_of_erase hq hr hagree

/-! ### The depth of the calls -/

omit [Zero K] [Add K] [Sub K] [Mul K] [Div K] [NatCast K] [Sqrt K] in
theorem bestAttr_mem {columns : List (Fin d)} {data : List (Clustered k d K)} {attr : Fin d}
    (h : bestAttr F columns data = .ok attr) : attr ∈ columns := by
  obtain ⟨gains, hgains, h⟩ := bind_ok h
  cases gains with
  | nil => cases h
  | cons first rest =>
    obtain ⟨attr', hattr', hgain⟩ := mapM_ok hgains _ (firstMax_mem Prod.snd first rest)
    obtain ⟨gain, -, hpair⟩ := bind_ok hgain
    cases h
    rw [← Except.ok.inj hpair]
    exact hattr'

omit [Zero K] [Add K] [Sub K] [Mul K] [Div K] [NatCast K] [Sqrt K] in
theorem bestAttr_error {columns : List (Fin d)} {data : List (Clustered k d K)} {e : TreeError}
    (h : bestAttr F columns data = .error e) : e ≠ .outOfFuel := by
  rcases bind_error h with h | ⟨gains, -, h⟩
  · obtain ⟨attr, -, h⟩ := mapM_error h
    rcases bind_error h with h | ⟨gain, -, h⟩
    · unfold gain at h
      split_ifs at h
      cases h
      decide
    · cases h
  · cases gains with
    | nil =>
      cases h
      decide
    | cons first rest => cases h

omit [LT K] [DecidableLT K] [DecidableEq K] [Zero K] [Add K] [Sub K] [Mul K] [Div K] [NatCast K]
  [Sqrt K] in
theorem columnMode_error {data : List (Clustered k d K)} {e : TreeError}
    (h : columnMode data = .error e) : e ≠ .outOfFuel := by
  unfold columnMode at h
  split_ifs at h
  cases h
  decide

omit [LT K] [DecidableLT K] [DecidableEq K] [Zero K] [Add K] [Sub K] [Mul K] [Div K] [NatCast K]
  [Sqrt K] in
theorem leaf_columnMode_error {data : List (Clustered k d K)}
    (h : (do return (leaf (← columnMode data) : Node k d K)) = Except.error TreeError.outOfFuel) :
    False := by
  rcases bind_error h with h | ⟨label, -, h⟩
  · exact columnMode_error h rfl
  · cases h

omit [Zero K] [Add K] [Sub K] [Mul K] [Div K] [NatCast K] [Sqrt K] in
/-- A call for every column is enough. -/
theorem createNode_fuel {uniqueAttrs : Fin d → List K} {maxDepth : Option ℕ} {fuel : ℕ}
    {columns : List (Fin d)} {data : List (Clustered k d K)} {depth : ℕ}
    (hfuel : columns.length < fuel) :
    createNode F uniqueAttrs maxDepth fuel columns data depth ≠ .error .outOfFuel := by
  induction fuel generalizing columns data depth with
  | zero => omega
  | succ fuel ih =>
    intro h
    unfold createNode at h
    split_ifs at h with hcolumns hone hdepth
    · exact leaf_columnMode_error h
    · cases data <;> cases h
    · rcases bind_error h with h | ⟨childAttr, -, h⟩
      · exact bestAttr_error h rfl
      · rcases bind_error h with h | ⟨label, -, h⟩
        · exact columnMode_error h rfl
        · cases h
    · rcases bind_error h with h | ⟨childAttr, hbest, h⟩
      · exact bestAttr_error h rfl
      · have hmem := bestAttr_mem hbest
        have hlength := List.length_erase_of_mem hmem
        have hpos := List.length_pos_of_mem hmem
        rcases bind_error h with h | ⟨nodes, -, h⟩
        · obtain ⟨value, -, h⟩ := Nodes.create_error h
          dsimp only at h
          split_ifs at h
          · exact leaf_columnMode_error h
          · exact ih (by omega) h
        · rcases bind_error h with h | ⟨label, -, h⟩
          · cases hclusters : nodes.clusters <;> rw [hclusters] at h <;> cases h
          · cases h

/-! ### The constructor -/

/-- Read with the values it was built from, a tree without a depth limit gives a row
the label `kmeans` gave it. -/
theorem predict_stored {table : Table d K} {initial centroids : Centroids k d K} {passes : ℕ}
    {root : Node k d K} (hleft : clusterCentroids table.iterrows passes initial = .left centroids)
    (hroot : clusterTree F table initial passes none = .ok root) {row : Row d K}
    (hrow : row ∈ table.rows) : root.predict row = nearest centroids (table.series row) := by
  unfold clusterTree at hroot
  rw [hleft] at hroot
  dsimp only at hroot
  unfold predict Table.iterrows at hroot
  rw [List.map_map, ← List.map_prod_left_eq_zip] at hroot
  refine createNode_predict hroot ?_ ?_ (row, nearest centroids (table.series row))
    (List.mem_map_of_mem hrow)
  · intro p hp attr
    obtain ⟨row, hrow, rfl⟩ := List.mem_map.mp hp
    exact mem_firstBy_id (List.mem_map_of_mem hrow)
  · -- `kmeans` gives equal rows one label
    intro p hp q hq hagree
    obtain ⟨row, -, rfl⟩ := List.mem_map.mp hp
    obtain ⟨row', -, rfl⟩ := List.mem_map.mp hq
    have hsame : row = row' := funext fun attr => hagree attr (List.mem_finRange attr)
    rw [hsame]

/-- A tree without a depth limit predicts the label of `kmeans.predict` for every row
that `iterrows` hands over unchanged, and for all when it changes none. -/
theorem training_labels {table : Table d K} {initial centroids : Centroids k d K} {passes : ℕ}
    {root : Node k d K} (hleft : clusterCentroids table.iterrows passes initial = .left centroids)
    (hroot : clusterTree F table initial passes none = .ok root) :
    (∀ row ∈ table.rows, root.predict row = nearest centroids (table.series row)) ∧
      (∀ row ∈ table.rows, table.series row = row →
        root.predict (table.series row) = nearest centroids (table.series row)) ∧
      ((∀ row ∈ table.rows, table.series row = row) →
        table.iterrows.map root.predict = predict table.iterrows centroids) := by
  have hstored : ∀ row ∈ table.rows, table.series row = row →
      root.predict (table.series row) = nearest centroids (table.series row) := by
    intro row hrow hsame
    rw [← predict_stored hleft hroot hrow, hsame]
  refine ⟨fun row hrow => predict_stored hleft hroot hrow, hstored, ?_⟩
  intro hall
  apply List.map_congr_left
  intro series hseries
  obtain ⟨row, hrow, rfl⟩ := List.mem_map.mp hseries
  exact hstored row hrow (hall row hrow)

/-- The bound on the calls is never met. -/
theorem clusterTree_fuel (table : Table d K) (initial : Centroids k d K) (passes : ℕ)
    (maxDepth : Option ℕ) : clusterTree F table initial passes maxDepth ≠ .error .outOfFuel := by
  unfold clusterTree
  cases clusterCentroids table.iterrows passes initial with
  | running => exact fun h => by cases h
  | raised => exact fun h => by cases h
  | left centroids => exact createNode_fuel (by rw [List.length_finRange]; exact d.lt_succ_self)

end

/-! ### A table of integers and floating point numbers -/

/-- The double nearest to an integer, the even one of two. -/
def float64 (n : ℤ) : ℤ :=
  let ulp := 2 ^ (n.natAbs.size - 53)
  let digits := n.natAbs / ulp
  let rest := 2 * (n.natAbs % ulp)
  let rounded := if rest < ulp ∨ rest = ulp ∧ digits % 2 = 0 then digits else digits + 1
  n.sign * (rounded * ulp)

instance : Sqrt ℚ := ⟨Rat.sqrt⟩

/-- The logarithm of a power of two. -/
instance : Log2 ℚ := ⟨fun x => (x.num.natAbs.size : ℚ) - x.den.size⟩

/-- The centroids when the first row is drawn first: the second is the only row off it. -/
def rowCentroids : Centroids 1 2 ℚ := ![![9007199254740992, 0], ![9007199254740992, 1]]

/-- A column of integers at the end of what a double holds, and one of doubles. -/
def largeIntegers : Table 2 ℚ where
  rows := [![9007199254740992, 0], ![9007199254740993, 1]]
  common x := if x.den = 1 then float64 x.num else x

theorem clusterCentroids_largeIntegers :
    clusterCentroids largeIntegers.iterrows 1 rowCentroids = .left rowCentroids := by
  have h : iteration largeIntegers.iterrows rowCentroids = some (rowCentroids, true) := by
    decide +kernel
  unfold clusterCentroids
  rw [h]

/-- The first row is handed over unchanged. -/
theorem training_labels_first :
    ∃ root, clusterTree ℚ largeIntegers rowCentroids 1 none = .ok root ∧
      root.predict (largeIntegers.series ![9007199254740992, 0]) =
        nearest rowCentroids (largeIntegers.series ![9007199254740992, 0]) := by
  have hok : (clusterTree ℚ largeIntegers rowCentroids 1 none).toBool = true := by decide +kernel
  cases hroot : clusterTree ℚ largeIntegers rowCentroids 1 none with
  | error e =>
    rw [hroot] at hok
    cases hok
  | ok root =>
    have hlabels := training_labels clusterCentroids_largeIntegers hroot
    exact ⟨root, rfl, hlabels.2.1 _ List.mem_cons_self (by decide +kernel)⟩

/-- The second row is read as the first one's integer, and gets its label. -/
theorem training_label_lost :
    clusterCentroids largeIntegers.iterrows 1 rowCentroids = .left rowCentroids ∧
      predict largeIntegers.iterrows rowCentroids = [0, 1] ∧
      (clusterTree ℚ largeIntegers rowCentroids 1 none).map
        (fun root => largeIntegers.iterrows.map root.predict) = .ok [0, 0] :=
  ⟨clusterCentroids_largeIntegers, by decide +kernel, by decide +kernel⟩

end Itmo.KMeansTree
