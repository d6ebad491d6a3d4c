import GraphSync.Proofs.Load.Writes

/-! Edges by type and ends: in a well-formed graph there is one at most, and a write to it leaves
all the others alone. -/
namespace GraphSync

/-- The type of an edge, its start and its end. -/
abbrev Joint := String × Nat × Nat

def Edge.joint (e : Edge) : Joint := (e.edgeType, e.start, e.finish)

def EdgeWrite.joint (w : EdgeWrite) : Joint := (w.schema.edgeType, w.ends)

theorem Direction.orient_eq_iff {d : Direction} {a b start finish : Nat} :
    d.orient a b = (start, finish) ↔ d.orient start finish = (a, b) := by
  cases d <;> simp only [orient, Prod.mk.injEq] <;> tauto

/-- A write is at a joint if its row is the ends of it, in the direction of the edge. -/
theorem EdgeWrite.joint_eq_iff {w : EdgeWrite} {edgeType : String} {start finish : Nat} :
    w.joint = (edgeType, start, finish) ↔
      w.schema.edgeType = edgeType ∧ w.row = w.schema.direction.orient start finish := by
  rw [joint, ends, Prod.mk.injEq, Direction.orient_eq_iff, eq_comm (a := w.row)]

namespace Graph

/-- The properties of the edge of a type between two nodes. -/
def between (g : Graph) (p : Joint) : Option Record :=
  ((g.findEdge p.1 p.2.1 p.2.2).bind g.edges.find?).map (·.properties)

variable {g h : Graph} {now : Int} {params : Parameters} {p q : Joint} {r : Record} {key : Nat}
  {e : Edge} {w : EdgeWrite} {ws : List EdgeWrite}

theorem joins_iff_joint : e.joins p.1 p.2.1 p.2.2 = true ↔ e.joint = p := by
  rw [Edge.joins_iff, Edge.joint, Prod.ext_iff, Prod.ext_iff]

theorem WellFormed.eq_of_joint {k l : Nat} {x y : Edge} (hg : g.WellFormed)
    (hx : g.edges.find? k = some x) (hy : g.edges.find? l = some y) (hj : x.joint = y.joint) :
    k = l :=
  have hjoins : y.joins x.joint.1 x.joint.2.1 x.joint.2.2 = true := joins_iff_joint.2 hj.symm
  hg.single hx hy hjoins

theorem between_eq_some_iff (hg : g.WellFormed) :
    g.between p = some r ↔ ∃ key, g.edges.find? key = some ⟨p.1, p.2.1, p.2.2, r⟩ := by
  simp only [between, Option.map_eq_some_iff, Option.bind_eq_some_iff]
  constructor
  · rintro ⟨⟨edgeType, start, finish, x⟩, ⟨key, hf, he⟩, rfl⟩
    obtain ⟨e, he', hj⟩ := findEdge_eq_some hf
    cases he.symm.trans he'
    obtain ⟨rfl, rfl, rfl⟩ := Edge.joins_iff.1 hj
    exact ⟨key, he⟩
  · rintro ⟨key, he⟩
    refine ⟨_, ⟨key, findEdge_eq_some_iff.2 ⟨_, he, ?_, fun k x hk hx => ?_⟩, he⟩, rfl⟩
    · exact Edge.joins_iff.2 ⟨rfl, rfl, rfl⟩
    · exact Bool.eq_false_iff.2 fun hj => Nat.ne_of_lt hk (hg.single he hx hj).symm

theorem between_of_find? (hg : g.WellFormed) (he : g.edges.find? key = some e) :
    g.between e.joint = some e.properties := (between_eq_some_iff hg).2 ⟨key, he⟩

theorem between_congr (he : h.edges = g.edges) : h.between = g.between := by
  funext p
  rw [between, between, findEdge, findEdge, he]

theorem between_eq_none_iff :
    g.between p = none ↔ ∀ key e, g.edges.find? key = some e → e.joint ≠ p := by
  have hfind : g.between p = none ↔ g.findEdge p.1 p.2.1 p.2.2 = none := by
    rw [between, Option.map_eq_none_iff, Option.bind_eq_none_iff]
    constructor
    · intro h
      refine Option.eq_none_iff_forall_ne_some.2 fun key hkey => ?_
      obtain ⟨e, he, -⟩ := findEdge_eq_some hkey
      exact nomatch he.symm.trans (h key hkey)
    · intro h key hkey
      exact nomatch hkey.symm.trans h
  rw [hfind, findEdge_eq_none_iff]
  refine forall₃_congr fun key e _ => ?_
  rw [← Bool.not_eq_true, joins_iff_joint]

theorem isSome_between_iff :
    (g.between p).isSome = true ↔ ∃ key e, g.edges.find? key = some e ∧ e.joint = p := by
  rw [Option.isSome_iff_ne_none, Ne, between_eq_none_iff]
  push Not
  rfl

/-- What is written at a joint is the edge there, that one alone. -/
theorem find?_edges_touchEdge (now : Int) (hg : g.WellFormed) (p : Joint)
    (f : Record → Record) : ∃ place, (g.locateEdge now p.1 p.2.1 p.2.2).2 = place ∧
      (∀ e, g.edges.find? place = some e → e.joint = p) ∧
      ∀ key, (g.touchEdge now p.1 p.2.1 p.2.2 f).edges.find? key =
        if key = place then some ⟨p.1, p.2.1, p.2.2, f ((g.between p).getD (createdEdge now))⟩
        else g.edges.find? key := by
  cases hf : g.findEdge p.1 p.2.1 p.2.2 with
  | some place =>
    obtain ⟨e, he, hj⟩ := findEdge_eq_some hf
    have hjoint : e.joint = p := joins_iff_joint.1 hj
    refine ⟨place, by simp only [locateEdge, hf], fun x hx => ?_, fun key => ?_⟩
    · cases he.symm.trans hx
      exact hjoint
    · rw [touchEdge_of_found hf he, find?_edges_setEdge, ← hjoint, between_of_find? hg he]
      rfl
  | none =>
    have hnone : g.between p = none := by
      rw [between_eq_none_iff]
      intro key e he hj
      exact absurd (joins_iff_joint.2 hj) (by simp [findEdge_eq_none_iff.1 hf _ _ he])
    refine ⟨g.lastKey + 1, by simp only [locateEdge, hf], fun x hx => ?_, fun key => ?_⟩
    · exact absurd rfl (hg.edge_ne_next hx)
    · rw [touchEdge_of_absent hf, find?_edges_addEdge, hnone]
      rfl

theorem between_touchEdge {f : Record → Record} (hg : g.WellFormed) (hends : g.HasEnds p.2) :
    (g.touchEdge now p.1 p.2.1 p.2.2 f).between q = if q = p then
      some (f ((g.between q).getD (createdEdge now))) else g.between q := by
  have hput : (g.touchEdge now p.1 p.2.1 p.2.2 f).WellFormed := hg.touchEdge hends
  obtain ⟨place, -, hplace, hfind⟩ := find?_edges_touchEdge now hg p f
  by_cases hq : q = p
  · subst hq
    rw [if_pos rfl, between_eq_some_iff hput]
    exact ⟨place, by rw [hfind, if_pos rfl]⟩
  · rw [if_neg hq]
    refine Option.ext fun r => ?_
    rw [between_eq_some_iff hput, between_eq_some_iff hg]
    refine exists_congr fun key => ?_
    rw [hfind]
    by_cases hk : key = place
    · subst hk
      refine iff_of_false (fun h => hq ?_) fun h => hq (hplace _ h)
      rw [if_pos rfl] at h
      exact congrArg Edge.joint (Option.some.inj h).symm
    · rw [if_neg hk]

/-- An edge keeps its place, its type and its ends. -/
theorem exists_of_touchEdge (now : Int) (hg : g.WellFormed) (p : Joint) (f : Record → Record)
    (he : g.edges.find? key = some e) :
    ∃ x, (g.touchEdge now p.1 p.2.1 p.2.2 f).edges.find? key = some x ∧ x.joint = e.joint := by
  obtain ⟨place, -, hplace, hfind⟩ := find?_edges_touchEdge now hg p f
  rw [hfind]
  split
  · next hk => exact ⟨_, rfl, (hplace e (hk ▸ he)).symm⟩
  · exact ⟨e, he, rfl⟩

theorem find?_touchEdge_of_joint_ne {f : Record → Record} (hg : g.WellFormed)
    (hne : e.joint ≠ p) : (g.touchEdge now p.1 p.2.1 p.2.2 f).edges.find? key = some e ↔
      g.edges.find? key = some e := by
  obtain ⟨place, -, hplace, hfind⟩ := find?_edges_touchEdge now hg p f
  rw [hfind]
  split
  · next hk =>
    refine iff_of_false (fun h => hne ?_) fun h => hne (hplace e (hk ▸ h))
    exact congrArg Edge.joint (Option.some.inj h).symm
  · rfl

/-- What a row writes is the edge at its joint, that one alone. -/
theorem find?_edges_putEdge (now : Int) (params : Parameters) (hg : g.WellFormed)
    (w : EdgeWrite) : ∃ place, (g.locateEdge now w.schema.edgeType w.ends.1 w.ends.2).2 = place ∧
      (∀ e, g.edges.find? place = some e → e.joint = w.joint) ∧
      ∀ key, (g.putEdge now params w).edges.find? key =
        if key = place then some ⟨w.joint.1, w.joint.2.1, w.joint.2.2,
          w.schema.properties.mapping.assignAll w.record params
            ((g.between w.joint).getD (createdEdge now))⟩
        else g.edges.find? key :=
  find?_edges_touchEdge now hg w.joint (w.schema.properties.mapping.assignAll w.record params)

theorem WellFormed.putEdge (hg : g.WellFormed) (hw : g.HasEnds w.row) :
    (g.putEdge now params w).WellFormed := hg.touchEdge (hw.orient _)

theorem between_putEdge (hg : g.WellFormed) (hw : g.HasEnds w.row) :
    (g.putEdge now params w).between q = if q = w.joint then
      some (w.schema.properties.mapping.assignAll w.record params
        ((g.between q).getD (createdEdge now))) else g.between q :=
  between_touchEdge (p := w.joint) hg (hw.orient _)

theorem exists_of_putEdge (now : Int) (params : Parameters) (hg : g.WellFormed) (w : EdgeWrite)
    (he : g.edges.find? key = some e) :
    ∃ x, (g.putEdge now params w).edges.find? key = some x ∧ x.joint = e.joint :=
  exists_of_touchEdge now hg w.joint _ he

theorem find?_putEdge_of_joint_ne (hg : g.WellFormed) (hne : e.joint ≠ w.joint) :
    (g.putEdge now params w).edges.find? key = some e ↔ g.edges.find? key = some e :=
  find?_touchEdge_of_joint_ne (p := w.joint) hg hne

/-- Rows written one by one. -/
def putRows (now : Int) (params : Parameters) (g : Graph) (ws : List EdgeWrite) : Graph :=
  ws.foldl (fun h w => h.putEdge now params w) g

theorem putRows_cons : g.putRows now params (w :: ws) =
    (g.putEdge now params w).putRows now params ws := rfl

theorem putRows_append {vs : List EdgeWrite} : g.putRows now params (vs ++ ws) =
    (g.putRows now params vs).putRows now params ws := List.foldl_append

theorem nodes_putRows : (g.putRows now params ws).nodes = g.nodes :=
  nodes_foldl fun _ _ => nodes_writeEdge

section Rows

variable (hg : g.WellFormed) (hws : ∀ w ∈ ws, g.HasEnds w.row)

include hg hws

theorem WellFormed.putRows : (g.putRows now params ws).WellFormed := by
  induction ws generalizing g with
  | nil => exact hg
  | cons w ws ih =>
    obtain ⟨hw, hrest⟩ := List.forall_mem_cons.1 hws
    exact ih (hg.putEdge hw) fun v hv => (hasEnds_congr nodes_writeEdge).2 (hrest v hv)

/-- What no single row changes stays the same under all of them. -/
theorem eq_putRows {α : Type} (field : Graph → α)
    (hfield : ∀ w ∈ ws, ∀ h : Graph, h.WellFormed → h.HasEnds w.row →
      field (h.putEdge now params w) = field h) :
    field (g.putRows now params ws) = field g := by
  induction ws generalizing g with
  | nil => rfl
  | cons w ws ih =>
    obtain ⟨hw, hrest⟩ := List.forall_mem_cons.1 hws
    obtain ⟨hfirst, hothers⟩ := List.forall_mem_cons.1 hfield
    have hnext : ∀ v ∈ ws, (g.putEdge now params w).HasEnds v.row := fun v hv =>
      (hasEnds_congr nodes_writeEdge).2 (hrest v hv)
    exact (ih (hg.putEdge hw) hnext hothers).trans (hfirst g hg hw)

theorem between_putRows_of_joint_ne (hne : ∀ w ∈ ws, w.joint ≠ q) :
    (g.putRows now params ws).between q = g.between q := by
  refine eq_putRows hg hws (·.between q) fun w hw h hh hends => ?_
  rw [between_putEdge hh hends, if_neg (hne w hw).symm]

/-- Rows join what is joined already and the ends they are for. -/
theorem isSome_between_putRows (now : Int) (params : Parameters) :
    ((g.putRows now params ws).between q).isSome = true ↔
      (g.between q).isSome = true ∨ ∃ w ∈ ws, w.joint = q := by
  induction ws generalizing g with
  | nil => simp [putRows]
  | cons w ws ih =>
    obtain ⟨hw, hrest⟩ := List.forall_mem_cons.1 hws
    rw [putRows_cons, ih (hg.putEdge hw) fun v hv => (hasEnds_congr nodes_writeEdge).2 (hrest v hv),
      between_putEdge hg hw, List.exists_mem_cons_iff]
    by_cases hq : q = w.joint
    · simp [hq]
    · simp [hq, Ne.symm hq]

/-- What rows of a schema assign, a further row of it covers. -/
theorem assignAll_between_putRows {f : EdgeSchema} (record : Record)
    (hschema : ∀ w ∈ ws, w.schema = f) :
    f.properties.mapping.assignAll record params
        (((g.putRows now params ws).between q).getD (createdEdge now)) =
      f.properties.mapping.assignAll record params ((g.between q).getD (createdEdge now)) := by
  refine eq_putRows hg hws (fun h => f.properties.mapping.assignAll record params
    ((h.between q).getD (createdEdge now))) fun w hw h hh hends => ?_
  obtain rfl := hschema w hw
  rw [between_putEdge hh hends]
  split
  · rw [Option.getD_some, Mapping.assignAll_assignAll w.schema.properties.wellFormed.distinct]
  · rfl

theorem exists_of_putRows (now : Int) (params : Parameters) (he : g.edges.find? key = some e) :
    ∃ x, (g.putRows now params ws).edges.find? key = some x ∧ x.joint = e.joint := by
  induction ws generalizing g e with
  | nil => exact ⟨e, he, rfl⟩
  | cons w ws ih =>
    obtain ⟨hw, hrest⟩ := List.forall_mem_cons.1 hws
    obtain ⟨x, hx, hjoint⟩ := exists_of_putEdge now params hg w he
    obtain ⟨y, hy, hlast⟩ := ih (hg.putEdge hw)
      (fun v hv => (hasEnds_congr nodes_writeEdge).2 (hrest v hv)) hx
    exact ⟨y, hy, hlast.trans hjoint⟩

/-- An edge that no row is for is left as it is, and none is added. -/
theorem find?_putRows_of_joint_ne (hne : ∀ w ∈ ws, e.joint ≠ w.joint) :
    (g.putRows now params ws).edges.find? key = some e ↔ g.edges.find? key = some e := by
  refine iff_of_eq (eq_putRows hg hws (·.edges.find? key = some e) fun w hw h hh _ => ?_)
  exact propext (find?_putEdge_of_joint_ne hh (hne w hw))

end Rows

/-- Rows of one record write the same to an edge, however many of them are for it. -/
theorem between_putRows_of_record {f : EdgeSchema} {record : Record} (hg : g.WellFormed)
    (hws : ∀ w ∈ ws, g.HasEnds w.row) (hsame : ∀ w ∈ ws, w.schema = f ∧ w.record = record)
    (hq : ∃ w ∈ ws, w.joint = q) : (g.putRows now params ws).between q =
      some (f.properties.mapping.assignAll record params
        ((g.between q).getD (createdEdge now))) := by
  induction ws generalizing g with
  | nil =>
    obtain ⟨w, hw, -⟩ := hq
    cases hw
  | cons w ws ih =>
    obtain ⟨hw, hrest⟩ := List.forall_mem_cons.1 hws
    obtain ⟨⟨rfl, rfl⟩, hothers⟩ := List.forall_mem_cons.1 hsame
    have hnext : ∀ v ∈ ws, (g.putEdge now params w).HasEnds v.row := fun v hv =>
      (hasEnds_congr nodes_writeEdge).2 (hrest v hv)
    rw [putRows_cons]
    by_cases hlater : ∃ v ∈ ws, v.joint = q
    · rw [ih (hg.putEdge hw) hnext hothers hlater, between_putEdge hg hw]
      split
      · rw [Option.getD_some, Mapping.assignAll_assignAll w.schema.properties.wellFormed.distinct]
      · rfl
    · have hq : q = w.joint := by
        obtain ⟨v, hv, rfl⟩ := hq
        rcases List.mem_cons.1 hv with rfl | hv
        · rfl
        · exact absurd ⟨v, hv, rfl⟩ hlater
      rw [between_putRows_of_joint_ne (hg.putEdge hw) hnext fun v hv hj => hlater ⟨v, hv, hj⟩,
        between_putEdge hg hw, if_pos hq]

/-- Among rows of one schema those of the last record for a joint tell what its edge becomes. -/
theorem between_putRows_of_last {f : EdgeSchema} {record : Record} {vs xs : List EdgeWrite}
    (now : Int) (params : Parameters) (hg : g.WellFormed)
    (hws : ∀ w ∈ vs ++ (ws ++ xs), g.HasEnds w.row)
    (hschema : ∀ w ∈ vs ++ (ws ++ xs), w.schema = f) (hsame : ∀ w ∈ ws, w.record = record)
    (hq : ∃ w ∈ ws, w.joint = q) (hafter : ∀ w ∈ xs, w.joint ≠ q) :
    (g.putRows now params (vs ++ (ws ++ xs))).between q =
      some (f.properties.mapping.assignAll record params
        ((g.between q).getD (createdEdge now))) := by
  obtain ⟨hvs, hws⟩ := List.forall_mem_append.1 hws
  obtain ⟨hws, hxs⟩ := List.forall_mem_append.1 hws
  obtain ⟨hbefore, hschema⟩ := List.forall_mem_append.1 hschema
  have hg' : (g.putRows now params vs).WellFormed := hg.putRows hvs
  have hws' : ∀ w ∈ ws, (g.putRows now params vs).HasEnds w.row := fun w hw =>
    (hasEnds_congr nodes_putRows).2 (hws w hw)
  have hxs' : ∀ w ∈ xs, ((g.putRows now params vs).putRows now params ws).HasEnds w.row :=
    fun w hw => (hasEnds_congr (nodes_putRows.trans nodes_putRows)).2 (hxs w hw)
  rw [putRows_append, putRows_append, between_putRows_of_joint_ne (hg'.putRows hws') hxs' hafter,
    between_putRows_of_record hg' hws'
      (fun w hw => ⟨hschema w (List.mem_append_left _ hw), hsame w hw⟩) hq,
    assignAll_between_putRows hg hvs record hbefore]

end Graph

end GraphSync
