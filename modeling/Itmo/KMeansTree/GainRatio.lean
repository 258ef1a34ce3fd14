import Itmo.KMeansTree.Descent
import Itmo.KMeansTree.Prediction
import Mathlib.Analysis.SpecialFunctions.Log.Base

/-! The denominator of the gain in `tree.py`, over the real numbers. It is the entropy of the
groups an attribute makes, and it is zero just if the attribute has one value in the rows it
is asked for. The recursion asks for the gains of such an attribute too, so a tree is built just
if every call that asks for gains finds two values in every column that is left. -/

namespace Itmo.KMeansTree

open Lib

noncomputable instance : Log2 ℝ := ⟨Real.logb (2 : ℕ)⟩

/-! ### The entropy of a split -/

theorem one_lt_base : (1 : ℝ) < (2 : ℕ) := Nat.one_lt_cast.mpr one_lt_two

theorem mul_logb_nonpos {x : ℝ} (hpos : 0 < x) (hle : x ≤ 1) :
    x * Real.logb (2 : ℕ) x ≤ 0 :=
  mul_nonpos_of_nonneg_of_nonpos hpos.le (Real.logb_nonpos one_lt_base hpos.le hle)

theorem mul_logb_eq_zero {x : ℝ} (hpos : 0 < x) (hle : x ≤ 1) :
    x * Real.logb (2 : ℕ) x = 0 ↔ x = 1 := by
  constructor
  · intro hzero
    by_contra hne
    have hneg := Real.logb_neg one_lt_base hpos (lt_of_le_of_ne hle hne)
    exact ((mul_eq_zero.mp hzero).resolve_left hpos.ne').not_lt hneg
  · rintro rfl
    rw [Real.logb_one, mul_zero]

/-- Terms that are not positive add up to zero just if each is zero. -/
theorem sum_nonpos_and_eq_zero_iff {l : List ℝ} (h : ∀ x ∈ l, x ≤ 0) :
    l.sum ≤ 0 ∧ (l.sum = 0 ↔ ∀ x ∈ l, x = 0) := by
  induction l with
  | nil => simp
  | cons x l ih =>
    have hx := h x List.mem_cons_self
    obtain ⟨hsum, hiff⟩ := ih fun y hy => h y (List.mem_cons_of_mem x hy)
    rw [List.sum_cons, List.forall_mem_cons, ← hiff]
    refine ⟨add_nonpos hx hsum, fun hzero => ⟨by linarith, by linarith⟩, ?_⟩
    rintro ⟨hx, hl⟩
    rw [hx, hl, add_zero]

theorem mem_groupby {α κ : Type*} [DecidableEq κ] [LT κ] [DecidableLT κ] {key : α → κ}
    {data part : List α} :
    part ∈ groupby key data ↔ ∃ a ∈ data, part = data.filter fun b => key b = key a := by
  rw [groupby, List.mem_map]
  constructor
  · rintro ⟨value, hvalue, rfl⟩
    rw [List.mem_insertionSort] at hvalue
    obtain ⟨a, ha, rfl⟩ := List.mem_map.mp (mem_firstBy_mem hvalue)
    exact ⟨a, ha, rfl⟩
  · rintro ⟨a, ha, rfl⟩
    refine ⟨key a, ?_, rfl⟩
    rw [List.mem_insertionSort]
    exact mem_firstBy_id (List.mem_map_of_mem ha)

section Split

variable {k d : ℕ} {K : Type} [DecidableEq K]

omit [DecidableEq K] in
theorem freq_real (columns : List (Fin d)) (part data : List (Clustered k d K)) :
    freq ℝ columns part data = (part.length : ℝ) / data.length := by
  have hcolumns : ((columns.length + 1 : ℕ) : ℝ) ≠ 0 := Nat.cast_ne_zero.mpr (by omega)
  rw [freq, size, size, Nat.cast_mul, Nat.cast_mul, mul_div_mul_right _ _ hcolumns]

variable [LT K] [DecidableLT K]

/-- The denominator is zero just for an attribute with one value. -/
theorem split_eq_zero_iff (columns : List (Fin d)) (data : List (Clustered k d K))
    (attr : Fin d) :
    split ℝ columns data attr = 0 ↔ ∀ p ∈ data, ∀ q ∈ data, p.1 attr = q.1 attr := by
  have hbounds : ∀ part ∈ groupby (fun row => row.1 attr) data,
      0 < freq ℝ columns part data ∧ freq ℝ columns part data ≤ 1 := by
    intro part hpart
    obtain ⟨p, hp, rfl⟩ := mem_groupby.mp hpart
    have hmem : p ∈ data.filter fun q => q.1 attr = p.1 attr :=
      List.mem_filter.mpr ⟨hp, decide_eq_true rfl⟩
    have hpart : (0 : ℝ) < (data.filter fun q => q.1 attr = p.1 attr).length :=
      Nat.cast_pos.mpr (List.length_pos_of_mem hmem)
    have hle : ((data.filter fun q => q.1 attr = p.1 attr).length : ℝ) ≤ data.length :=
      Nat.cast_le.mpr List.filter_sublist.length_le
    rw [freq_real]
    exact ⟨div_pos hpart (hpart.trans_le hle), (div_le_one (hpart.trans_le hle)).mpr hle⟩
  have hterms : ∀ x ∈ (groupby (fun row => row.1 attr) data).map (fun part =>
      freq ℝ columns part data * Log2.log2 (freq ℝ columns part data)), x ≤ 0 := by
    intro x hx
    obtain ⟨part, hpart, rfl⟩ := List.mem_map.mp hx
    exact mul_logb_nonpos (hbounds part hpart).1 (hbounds part hpart).2
  have hone : ((1 : ℕ) : ℝ) ≠ 0 := Nat.cast_ne_zero.mpr one_ne_zero
  rw [split, sum_real, neg_mul, neg_eq_zero, mul_eq_zero, or_iff_right hone,
    (sum_nonpos_and_eq_zero_iff hterms).2, List.forall_mem_map]
  constructor
  · intro hzero p hp q hq
    have hpart : (data.filter fun q => q.1 attr = p.1 attr) ∈
        groupby (fun row => row.1 attr) data := mem_groupby.mpr ⟨p, hp, rfl⟩
    have hfreq := (mul_logb_eq_zero (hbounds _ hpart).1 (hbounds _ hpart).2).mp (hzero _ hpart)
    have hlength : (data.length : ℝ) ≠ 0 :=
      Nat.cast_ne_zero.mpr (List.length_pos_of_mem hp).ne'
    rw [freq_real, div_eq_one_iff_eq hlength, Nat.cast_inj, List.length_filter_eq_length_iff]
      at hfreq
    exact (of_decide_eq_true (hfreq q hq)).symm
  · intro hsame part hpart
    obtain ⟨p, hp, rfl⟩ := mem_groupby.mp hpart
    have hlength : (data.length : ℝ) ≠ 0 :=
      Nat.cast_ne_zero.mpr (List.length_pos_of_mem hp).ne'
    refine (mul_logb_eq_zero (hbounds _ hpart).1 (hbounds _ hpart).2).mpr ?_
    rw [freq_real, div_eq_one_iff_eq hlength, Nat.cast_inj, List.length_filter_eq_length_iff]
    exact fun q hq => decide_eq_true (hsame q hq p hp)

end Split

/-! ### The calls -/

/-- The arguments of a call of `create_node` that change on the way. -/
structure Call (k d : ℕ) (K : Type) where
  columns : List (Fin d)
  data : List (Clustered k d K)
  depth : ℕ

section Calls

variable {k d : ℕ} {K : Type} [DecidableEq K] [LT K] [DecidableLT K]

/-- The gains of the columns are asked for. -/
def Call.Asks (call : Call k d K) : Prop :=
  call.columns ≠ [] ∧ nunique call.data ≠ 1

/-- Every column that is left has two values. -/
def Call.Varies (call : Call k d K) : Prop :=
  ∀ attr ∈ call.columns, ∃ p ∈ call.data, ∃ q ∈ call.data, p.1 attr ≠ q.1 attr

/-- A call makes another one for a group of the attribute of the greatest gain. -/
def Recurses (uniqueAttrs : Fin d → List K) (maxDepth : Option ℕ) (call call' : Call k d K) :
    Prop :=
  call.Asks ∧ ∃ attr, bestAttr ℝ call.columns call.data = .ok attr ∧
    ¬ maxDepth.any (· < call.depth) ∧ ∃ value ∈ uniqueAttrs attr, call'.data ≠ [] ∧
      call' = ⟨call.columns.erase attr, call.data.filter fun row => row.1 attr = value,
        call.depth + 1⟩

/-- The calls that a first one leads to. -/
def Reaches (uniqueAttrs : Fin d → List K) (maxDepth : Option ℕ) :
    Call k d K → Call k d K → Prop :=
  Relation.ReflTransGen (Recurses uniqueAttrs maxDepth)

theorem gain_isOk_iff (columns : List (Fin d)) (data : List (Clustered k d K)) (attr : Fin d) :
    (∃ g, gain ℝ columns data attr = .ok g) ↔ ∃ p ∈ data, ∃ q ∈ data, p.1 attr ≠ q.1 attr := by
  have hsplit := split_eq_zero_iff columns data attr
  rw [gain]
  split_ifs with hzero
  · refine iff_of_false ?_ ?_
    · rintro ⟨g, hg⟩
      cases hg
    · rintro ⟨p, hp, q, hq, hne⟩
      exact hne (hsplit.mp hzero p hp q hq)
  · refine iff_of_true ⟨_, rfl⟩ ?_
    have hvaries := mt hsplit.mpr hzero
    simpa only [not_forall, exists_prop] using hvaries

/-- The gains are there just if every column has two values. -/
theorem bestAttr_isOk_iff {columns : List (Fin d)} (hcolumns : columns ≠ [])
    (data : List (Clustered k d K)) :
    (∃ attr, bestAttr ℝ columns data = .ok attr) ↔
      ∀ attr ∈ columns, ∃ p ∈ data, ∃ q ∈ data, p.1 attr ≠ q.1 attr := by
  have hgains : (∃ gains, columns.mapM (fun attr => (do
      return (attr, ← gain ℝ columns data attr) : Except TreeError (Fin d × ℝ))) = .ok gains) ↔
      ∀ attr ∈ columns, ∃ p ∈ data, ∃ q ∈ data, p.1 attr ≠ q.1 attr := by
    rw [mapM_isOk_iff]
    refine forall₂_congr fun attr _ => ?_
    rw [← gain_isOk_iff]
    constructor
    · rintro ⟨pair, hpair⟩
      obtain ⟨g, hg, -⟩ := bind_ok hpair
      exact ⟨g, hg⟩
    · rintro ⟨g, hg⟩
      refine ⟨(attr, g), ?_⟩
      rw [hg]
      rfl
  rw [← hgains, bestAttr]
  constructor
  · rintro ⟨attr, hattr⟩
    obtain ⟨gains, hok, -⟩ := bind_ok hattr
    exact ⟨gains, hok⟩
  · rintro ⟨gains, hok⟩
    have hlength := mapM_length hok
    rw [hok]
    cases gains with
    | nil => exact absurd (List.length_eq_zero_iff.mp hlength.symm) hcolumns
    | cons first rest => exact ⟨_, rfl⟩

/-! ### The tree -/

omit [LT K] [DecidableLT K] [DecidableEq K] in
theorem columnMode_isOk {data : List (Clustered k d K)} (hdata : data ≠ []) :
    ∃ label, columnMode data = .ok label := by
  rw [columnMode, if_neg fun h => hdata (List.isEmpty_iff.mp h)]
  exact ⟨_, rfl⟩

omit [LT K] [DecidableLT K] [DecidableEq K] in
/-- The children are there just if every value has its child. -/
theorem Nodes.create_isOk_iff {child : K → Except TreeError (Node k d K)} {values : List K} :
    (∃ nodes, Nodes.create child values = .ok nodes) ↔
      ∀ value ∈ values, ∃ node, child value = .ok node := by
  induction values with
  | nil => exact iff_of_true ⟨.nil, rfl⟩ fun a ha => by cases ha
  | cons value values ih =>
    rw [List.forall_mem_cons, ← ih, Nodes.create]
    constructor
    · rintro ⟨nodes, h⟩
      obtain ⟨node, hnode, h⟩ := bind_ok h
      obtain ⟨rest, hrest, -⟩ := bind_ok h
      exact ⟨⟨node, hnode⟩, ⟨rest, hrest⟩⟩
    · rintro ⟨⟨node, hnode⟩, ⟨rest, hrest⟩⟩
      refine ⟨.cons value node rest, ?_⟩
      rw [hnode, hrest]
      rfl

omit [LT K] [DecidableLT K] [DecidableEq K] in
theorem mode_clusters_isOk {child : K → Except TreeError (Node k d K)} {values : List K}
    {nodes : Nodes k d K} (h : Nodes.create child values = .ok nodes) (hvalues : values ≠ []) :
    ∃ label, mode nodes.clusters = .ok label := by
  cases values with
  | nil => exact absurd rfl hvalues
  | cons value values =>
    obtain ⟨node, -, h⟩ := bind_ok h
    obtain ⟨rest, -, h⟩ := bind_ok h
    cases h
    exact ⟨_, rfl⟩

section Returns

variable {uniqueAttrs : Fin d → List K} {maxDepth : Option ℕ} {fuel : ℕ} {call : Call k d K}

/-- The child for a value is there just if the call for its group, if any, returns. -/
theorem child_isOk_iff (hdata : call.data ≠ []) (childAttr : Fin d) (value : K) :
    (∃ node, (let attrGroup := call.data.filter fun row => row.1 childAttr = value
      if attrGroup.isEmpty then do return leaf (← columnMode call.data)
      else createNode ℝ uniqueAttrs maxDepth fuel (call.columns.erase childAttr) attrGroup
        (call.depth + 1) : Except TreeError (Node k d K)) = .ok node) ↔
      (call.data.filter (fun row => row.1 childAttr = value) ≠ [] →
        ∃ node, createNode ℝ uniqueAttrs maxDepth fuel (call.columns.erase childAttr)
          (call.data.filter fun row => row.1 childAttr = value) (call.depth + 1) = .ok node) := by
  dsimp only
  split_ifs with hempty
  · refine iff_of_true ?_ fun hne => absurd (List.isEmpty_iff.mp hempty) hne
    obtain ⟨label, hlabel⟩ := columnMode_isOk hdata
    rw [hlabel]
    exact ⟨_, rfl⟩
  · exact ⟨fun h _ => h, fun h => h fun hnil => hempty (List.isEmpty_iff.mpr hnil)⟩

/-- A call that asks for no gains is a leaf. -/
theorem createNode_of_not_asks (hdata : call.data ≠ []) (hasks : ¬ call.Asks) :
    ∃ node, createNode ℝ uniqueAttrs maxDepth (fuel + 1) call.columns call.data call.depth =
      .ok node := by
  unfold createNode
  by_cases hempty : call.columns.isEmpty
  · obtain ⟨label, hlabel⟩ := columnMode_isOk hdata
    rw [if_pos hempty, hlabel]
    exact ⟨_, rfl⟩
  · have hcolumns : call.columns ≠ [] := fun h => hempty (List.isEmpty_iff.mpr h)
    have hone : nunique call.data = 1 := not_not.mp fun h => hasks ⟨hcolumns, h⟩
    rw [if_neg hempty, if_pos hone]
    cases hrows : call.data with
    | nil => exact absurd hrows hdata
    | cons row rest => exact ⟨_, rfl⟩

/-- A call at the depth limit needs the gains only. -/
theorem createNode_of_limit (hdata : call.data ≠ []) (hasks : call.Asks) {childAttr : Fin d}
    (hattr : bestAttr ℝ call.columns call.data = .ok childAttr)
    (hdepth : maxDepth.any (· < call.depth)) :
    ∃ node, createNode ℝ uniqueAttrs maxDepth (fuel + 1) call.columns call.data call.depth =
      .ok node := by
  obtain ⟨label, hlabel⟩ := columnMode_isOk hdata
  unfold createNode
  rw [if_neg fun h => hasks.1 (List.isEmpty_iff.mp h), if_neg hasks.2, hattr, ok_bind,
    if_pos hdepth, hlabel]
  exact ⟨_, rfl⟩

/-- Above the limit it needs a call for every group of the attribute. -/
theorem createNode_children_isOk_iff (hdata : call.data ≠ [])
    (hvalues : ∀ p ∈ call.data, ∀ attr, p.1 attr ∈ uniqueAttrs attr) (hasks : call.Asks)
    {childAttr : Fin d} (hattr : bestAttr ℝ call.columns call.data = .ok childAttr)
    (hdepth : ¬ maxDepth.any (· < call.depth)) :
    (∃ node, createNode ℝ uniqueAttrs maxDepth (fuel + 1) call.columns call.data call.depth =
        .ok node) ↔
      ∀ value ∈ uniqueAttrs childAttr,
        call.data.filter (fun row => row.1 childAttr = value) ≠ [] →
          ∃ node, createNode ℝ uniqueAttrs maxDepth fuel (call.columns.erase childAttr)
            (call.data.filter fun row => row.1 childAttr = value) (call.depth + 1) =
              .ok node := by
  have hnone : uniqueAttrs childAttr ≠ [] := by
    obtain ⟨p, hp⟩ := List.exists_mem_of_ne_nil _ hdata
    exact List.ne_nil_of_mem (hvalues p hp childAttr)
  conv_lhs => unfold createNode
  rw [if_neg fun h => hasks.1 (List.isEmpty_iff.mp h), if_neg hasks.2, hattr, ok_bind,
    if_neg hdepth]
  constructor
  · rintro ⟨node, hnode⟩ value hvalue
    obtain ⟨nodes, hnodes, -⟩ := bind_ok hnode
    exact (child_isOk_iff hdata childAttr value).mp
      (Nodes.create_isOk_iff.mp ⟨nodes, hnodes⟩ value hvalue)
  · intro hcalls
    obtain ⟨nodes, hnodes⟩ := Nodes.create_isOk_iff.mpr fun value hvalue =>
      (child_isOk_iff hdata childAttr value).mpr (hcalls value hvalue)
    obtain ⟨label, hlabel⟩ := mode_clusters_isOk hnodes hnone
    dsimp only at hnodes
    rw [hnodes]
    refine ⟨.mk (some childAttr) nodes label, ?_⟩
    change (do
      let label ← mode nodes.clusters
      return .mk (some childAttr) nodes label : Except TreeError (Node k d K)) = _
    rw [hlabel]
    rfl

/-- A call that asks for gains returns only if it has them. -/
theorem varies_of_createNode {node : Node k d K}
    (h : createNode ℝ uniqueAttrs maxDepth fuel call.columns call.data call.depth = .ok node)
    (hasks : call.Asks) : call.Varies := by
  cases fuel with
  | zero => cases h
  | succ fuel =>
    unfold createNode at h
    rw [if_neg fun h => hasks.1 (List.isEmpty_iff.mp h), if_neg hasks.2] at h
    obtain ⟨attr, hattr, -⟩ := bind_ok h
    exact (bestAttr_isOk_iff hasks.1 call.data).mp ⟨attr, hattr⟩

/-- What a call does, in terms of the calls it makes. -/
theorem createNode_succ_isOk_iff (hdata : call.data ≠ [])
    (hvalues : ∀ p ∈ call.data, ∀ attr, p.1 attr ∈ uniqueAttrs attr) :
    (∃ node, createNode ℝ uniqueAttrs maxDepth (fuel + 1) call.columns call.data call.depth =
        .ok node) ↔
      (call.Asks → call.Varies) ∧ ∀ call', Recurses uniqueAttrs maxDepth call call' →
        ∃ node, createNode ℝ uniqueAttrs maxDepth fuel call'.columns call'.data call'.depth =
          .ok node := by
  constructor
  · rintro ⟨node, hnode⟩
    refine ⟨varies_of_createNode hnode, ?_⟩
    rintro call' ⟨hasks, attr, hattr, hdepth, value, hvalue, hgroup, rfl⟩
    exact (createNode_children_isOk_iff hdata hvalues hasks hattr hdepth).mp ⟨node, hnode⟩
      value hvalue hgroup
  · rintro ⟨hvaries, hcalls⟩
    by_cases hasks : call.Asks
    · obtain ⟨attr, hattr⟩ := (bestAttr_isOk_iff hasks.1 call.data).mpr (hvaries hasks)
      by_cases hdepth : maxDepth.any (· < call.depth)
      · exact createNode_of_limit hdata hasks hattr hdepth
      · exact (createNode_children_isOk_iff hdata hvalues hasks hattr hdepth).mpr
          fun value hvalue hgroup =>
            hcalls _ ⟨hasks, attr, hattr, hdepth, value, hvalue, hgroup, rfl⟩
    · exact createNode_of_not_asks hdata hasks

/-- A tree is built just if every call it leads to that asks for gains finds two values in
every column. -/
theorem createNode_isOk_iff (hfuel : call.columns.length < fuel) (hdata : call.data ≠ [])
    (hvalues : ∀ p ∈ call.data, ∀ attr, p.1 attr ∈ uniqueAttrs attr) :
    (∃ node, createNode ℝ uniqueAttrs maxDepth fuel call.columns call.data call.depth =
        .ok node) ↔
      ∀ call', Reaches uniqueAttrs maxDepth call call' → call'.Asks → call'.Varies := by
  induction fuel generalizing call with
  | zero => omega
  | succ fuel ih =>
    have hcalls : ∀ call', Recurses uniqueAttrs maxDepth call call' →
        ((∃ node, createNode ℝ uniqueAttrs maxDepth fuel call'.columns call'.data call'.depth =
          .ok node) ↔
          ∀ call'', Reaches uniqueAttrs maxDepth call' call'' → call''.Asks → call''.Varies) := by
      rintro call' ⟨-, attr, hattr, -, value, -, hgroup, rfl⟩
      have hmem := bestAttr_mem hattr
      have hlength := List.length_erase_of_mem hmem
      have hpos := List.length_pos_of_mem hmem
      exact ih (by dsimp only; omega) hgroup fun p hp => hvalues p (List.mem_of_mem_filter hp)
    rw [createNode_succ_isOk_iff hdata hvalues]
    constructor
    · rintro ⟨hhere, hbelow⟩ call' hreaches
      rcases Relation.ReflTransGen.cases_head hreaches with rfl | ⟨next, hnext, hrest⟩
      · exact hhere
      · exact (hcalls next hnext).mp (hbelow next hnext) call' hrest
    · intro hall
      refine ⟨hall call Relation.ReflTransGen.refl, fun next hnext => ?_⟩
      exact (hcalls next hnext).mpr fun call' hrest =>
        hall call' (Relation.ReflTransGen.head hnext hrest)

/-- No tree is built of no rows. -/
theorem createNode_nil {depth : ℕ} {columns : List (Fin d)} {node : Node k d K} :
    createNode ℝ uniqueAttrs maxDepth fuel columns [] depth ≠ .ok node := by
  intro h
  by_cases hcolumns : columns = []
  · cases fuel with
    | zero => cases h
    | succ fuel =>
      unfold createNode at h
      rw [if_pos (List.isEmpty_iff.mpr hcolumns)] at h
      obtain ⟨label, hlabel, -⟩ := bind_ok h
      cases hlabel
  · have hvaries : (⟨columns, [], depth⟩ : Call k d K).Varies :=
      varies_of_createNode h ⟨hcolumns, Nat.zero_ne_one⟩
    obtain ⟨column, hcolumn⟩ := List.exists_mem_of_ne_nil _ hcolumns
    obtain ⟨p, hp, -⟩ := hvaries column hcolumn
    cases hp

end Returns

/-- The first call for a training set. -/
def firstCall (table : Table d K) (labels : List (Fin (k + 1))) : Call k d K where
  columns := List.finRange d
  data := table.rows.zip labels
  depth := 1

/-- The denominators are not zero just where an attribute has two values, and the tree of a
training set is built just if there are rows and every call that asks for gains finds two
values in every column that is left. -/
theorem createNode_training_iff (table : Table d K) (labels : List (Fin (k + 1)))
    (maxDepth : Option ℕ) :
    (∀ call : Call k d K,
      (∀ attr ∈ call.columns, split ℝ call.columns call.data attr ≠ 0) ↔ call.Varies) ∧
    ((∃ node, createNode ℝ (uniqueAttrs table) maxDepth (d + 1) (List.finRange d)
        (table.rows.zip labels) 1 = .ok node) ↔
      table.rows.zip labels ≠ [] ∧
        ∀ call, Reaches (uniqueAttrs table) maxDepth (firstCall table labels) call →
          call.Asks → call.Varies) := by
  constructor
  · intro call
    refine forall₂_congr fun attr _ => ?_
    rw [ne_eq, split_eq_zero_iff]
    simp only [not_forall, exists_prop, ne_eq]
  · by_cases hdata : table.rows.zip labels = []
    · rw [hdata]
      refine iff_of_false ?_ fun h => h.1 rfl
      rintro ⟨node, h⟩
      exact createNode_nil h
    · have hlength : (firstCall table labels).columns.length < d + 1 := by
        rw [firstCall, List.length_finRange]
        exact d.lt_succ_self
      have hvalues : ∀ p ∈ (firstCall table labels).data, ∀ attr,
          p.1 attr ∈ uniqueAttrs table attr := fun p hp attr =>
        mem_firstBy_id (List.mem_map_of_mem (List.of_mem_zip hp).1)
      exact (createNode_isOk_iff hlength hdata hvalues).trans (and_iff_right hdata).symm

end Calls

/-- Two rows that agree in the first attribute and not in their cluster. -/
def agreeing : Table 2 ℤ where
  rows := [![0, 0], ![0, 1]]
  common := id

/-- The first attribute has one value, so its gain divides by zero. -/
theorem createNode_agreeing :
    createNode ℝ (uniqueAttrs agreeing) none 3 (List.finRange 2)
      (agreeing.rows.zip [(0 : Fin 2), 1]) 1 = .error .zeroDivision := by
  have hsplit : split ℝ (List.finRange 2) (agreeing.rows.zip [(0 : Fin 2), 1]) 0 = 0 :=
    (split_eq_zero_iff _ _ _).mpr (by decide)
  have hgain : gain ℝ (List.finRange 2) (agreeing.rows.zip [(0 : Fin 2), 1]) 0 =
      .error .zeroDivision := by
    rw [gain, if_pos hsplit]
  have hbest : bestAttr ℝ (List.finRange 2) (agreeing.rows.zip [(0 : Fin 2), 1]) =
      .error .zeroDivision := by
    have hgains : (List.finRange 2).mapM (fun attr => (do
        return (attr, ← gain ℝ (List.finRange 2) (agreeing.rows.zip [(0 : Fin 2), 1]) attr) :
          Except TreeError (Fin 2 × ℝ))) = .error .zeroDivision :=
      mapM_cons_error (a := (0 : Fin 2)) (by rw [hgain]; rfl) [1]
    rw [bestAttr, hgains]
    rfl
  have hempty : (List.finRange 2).isEmpty = false := rfl
  have hnunique : nunique (agreeing.rows.zip [(0 : Fin 2), 1]) ≠ 1 := by decide
  unfold createNode
  rw [hempty, if_neg Bool.false_ne_true, if_neg hnunique, hbest]
  rfl

end Itmo.KMeansTree
