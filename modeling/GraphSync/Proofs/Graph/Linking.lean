import GraphSync.Proofs.Graph.Marking

/-! The exact effect of a property link: which nodes it joins in which comparison, what becomes of
the edges, how many pairs are counted, and that the same link again leaves all as it is. -/
namespace GraphSync

/-- What it takes of the value that is found to satisfy a comparison with the one that is wanted.
Values that are no texts satisfy no comparison of texts. -/
inductive MatchMode.Compares : MatchMode → Json → Json → Prop
  | exact {found wanted : Json} (h : found.agrees wanted = true) : Compares exact found wanted
  | caseInsensitive {found wanted : String}
      (h : Lowercase.lower found.toList = Lowercase.lower wanted.toList) :
      Compares caseInsensitive (.str found) (.str wanted)
  | fuzzyCaseInsensitive {found wanted : String}
      (h : Lowercase.lower wanted.toList <:+: Lowercase.lower found.toList) :
      Compares fuzzyCaseInsensitive (.str found) (.str wanted)

theorem containsText_iff {part cs : List Char} : containsText part cs = true ↔ part <:+: cs := by
  induction cs with
  | nil => rw [containsText, List.isEmpty_iff, List.infix_nil]
  | cons c rest ih =>
    rw [containsText, Bool.or_eq_true, List.isPrefixOf_iff_prefix, ih, List.infix_cons_iff]

theorem MatchMode.holds_iff {mode : MatchMode} {found wanted : Json} :
    mode.holds found wanted = true ↔ mode.Compares found wanted := by
  constructor
  · intro h
    cases mode with
    | exact => exact .exact h
    | caseInsensitive =>
      cases found <;> cases wanted <;> simp only [holds, Json.lowered?, reduceCtorEq] at h
      exact .caseInsensitive (beq_iff_eq.1 h)
    | fuzzyCaseInsensitive =>
      cases found <;> cases wanted <;> simp only [holds, Json.lowered?, reduceCtorEq] at h
      exact .fuzzyCaseInsensitive (containsText_iff.1 h)
  · intro h
    cases h with
    | exact h => exact h
    | caseInsensitive h => exact beq_iff_eq.2 h
    | fuzzyCaseInsensitive h => exact containsText_iff.2 h

namespace Graph

/-- A link joins a node of its first label with a node of its second, possibly the same, if the
property of the second one compares with the property of the first, which has to be present. -/
def Links (g : Graph) (l : PropertyLink) (start finish : Nat) : Prop :=
  ∃ n m wanted found, g.nodes.find? start = some n ∧ n.hasLabel l.fromLabel = true ∧
    n.get? l.fromProperty = some wanted ∧ wanted.isNull = false ∧
    g.nodes.find? finish = some m ∧ m.hasLabel l.toLabel = true ∧
    m.get? l.toProperty = some found ∧ l.matchMode.Compares found wanted

/-- What is left of a graph when a link is followed. -/
structure Followed (now : Int) (tag : Json) (l : PropertyLink) (g h : Graph) : Prop where
  nodes : h.nodes = g.nodes
  indexes : h.indexes = g.indexes
  /-- The edge of a pair from before is marked, all else about it is kept. -/
  marked : ∀ {key e}, g.edges.find? key = some e → e.edgeType = l.edgeType →
    g.Links l e.start e.finish →
      h.edges.find? key = some { e with properties := e.properties.insert Names.mark tag }
  /-- Edges that are of no pair are as before, and none is added. -/
  others : ∀ {key e}, (e.edgeType = l.edgeType → ¬ g.Links l e.start e.finish) →
    (h.edges.find? key = some e ↔ g.edges.find? key = some e)
  /-- A new edge is of a pair that had none, and has its time and its mark. -/
  created : ∀ {key e}, h.edges.find? key = some e → g.edges.find? key = none →
    e.edgeType = l.edgeType ∧ g.Links l e.start e.finish ∧
    (∀ k x, g.edges.find? k = some x → x.joint ≠ e.joint) ∧
    ∀ name, e.properties.find? name =
      if name = Names.mark then some tag
      else if name = Names.firstSeen then some (.int now) else none
  /-- Two nodes are joined by a type if they were, or if the link is of that type and for them. -/
  joined : ∀ {p : Joint}, (∃ key e, h.edges.find? key = some e ∧ e.joint = p) ↔
    (∃ key e, g.edges.find? key = some e ∧ e.joint = p) ∨
      p.1 = l.edgeType ∧ g.Links l p.2.1 p.2.2
  /-- No two edges of a type join the same nodes. -/
  single : ∀ {k j x y}, h.edges.find? k = some x → h.edges.find? j = some y →
    x.joint = y.joint → k = j

variable {g h : Graph} {now : Int} {tag : Json} {params : Parameters} {l : PropertyLink}
  {ps : List Joint} {key start finish : Nat} {e : Edge}

theorem links_iff : g.Links l start finish ↔ (start, finish) ∈ g.linkedPairs l := by
  rw [mem_linkedPairs]
  constructor
  · rintro ⟨n, m, wanted, found, hn, hl, hwanted, hnull, hm, hlm, hfound, hcompares⟩
    refine ⟨n, m, wanted, hn, hl, Json.present_eq_some_iff.2 ⟨hwanted, hnull⟩, hm, hlm, ?_⟩
    rw [hfound]
    exact MatchMode.holds_iff.2 hcompares
  · rintro ⟨n, m, wanted, hn, hl, hwanted, hm, hlm, haccepts⟩
    obtain ⟨hwanted, hnull⟩ := Json.present_eq_some_iff.1 hwanted
    cases hfound : m.get? l.toProperty with
    | none => simp [hfound, MatchMode.accepts] at haccepts
    | some found =>
      rw [hfound] at haccepts
      exact ⟨n, m, wanted, found, hn, hl, hwanted, hnull, hm, hlm, hfound,
        MatchMode.holds_iff.1 haccepts⟩

theorem joint_mem_joints_iff : e.joint ∈ g.joints l ↔
    e.edgeType = l.edgeType ∧ g.Links l e.start e.finish := by
  rw [mem_joints, links_iff]
  rfl

/-! Each pair is listed once. -/

theorem nodup_keys_labelled (g : Graph) (label : String) : ((g.labelled label).map (·.1)).Nodup :=
  g.nodes.nodup_keys.sublist (List.filter_sublist.map _)

theorem nodup_linkedPairs (g : Graph) (l : PropertyLink) : (g.linkedPairs l).Nodup := by
  have hlabelled : ∀ label, (g.labelled label).Pairwise fun a b => a.1 ≠ b.1 := fun label =>
    List.pairwise_map.1 (nodup_keys_labelled g label)
  refine List.nodup_flatMap.2 ⟨fun a _ => ?_, (hlabelled l.fromLabel).imp fun hne => ?_⟩
  · split
    · exact .nil
    · refine List.pairwise_map.2 (((hlabelled l.toLabel).filter _).imp fun hne he => hne ?_)
      exact congrArg Prod.snd he
  · intro pair ha hb
    dsimp only at ha hb
    split at ha
    · cases ha
    · split at hb
      · cases hb
      · obtain ⟨_, -, rfl⟩ := List.mem_map.1 ha
        obtain ⟨_, -, he⟩ := List.mem_map.1 hb
        exact hne (congrArg Prod.fst he).symm

/-- The pairs of a link. -/
def pairs (g : Graph) (l : PropertyLink) : Finset (Nat × Nat) :=
  ⟨g.linkedPairs l, nodup_linkedPairs g l⟩

/-! What is marked keeps its place. -/

theorem exists_of_markJoints (hg : g.WellFormed) (hps : ∀ p ∈ ps, g.HasEnds p.2) (now : Int)
    (tag : Json) (he : g.edges.find? key = some e) :
    ∃ x, (g.markJoints now tag ps).edges.find? key = some x ∧ x.joint = e.joint := by
  induction ps generalizing g e with
  | nil => exact ⟨e, he, rfl⟩
  | cons p ps ih =>
    obtain ⟨hp, hrest⟩ := List.forall_mem_cons.1 hps
    obtain ⟨x, hx, hjoint⟩ := exists_of_touchEdge now hg p (·.insert Names.mark tag) he
    obtain ⟨y, hy, hjoint'⟩ := ih (hg.touchEdge hp)
      (fun q hq => (hasEnds_congr nodes_touchEdge).2 (hrest q hq)) hx
    exact ⟨y, hy, hjoint'.trans hjoint⟩

/-! What following a link leaves. -/

theorem followed_markJoints (now : Int) (tag : Json) (l : PropertyLink) (hg : g.WellFormed) :
    Followed now tag l g (g.markJoints now tag (g.joints l)) := by
  have hends : ∀ p ∈ g.joints l, g.HasEnds p.2 := fun p hp => hasEnds_of_mem_joints hp
  have hmarked : (g.markJoints now tag (g.joints l)).WellFormed := hg.markJoints hends
  constructor
  case nodes => exact nodes_markJoints
  case indexes => exact indexes_markJoints
  case marked =>
    intro key e he htype hlinks
    obtain ⟨x, hx, hjoint⟩ := exists_of_markJoints hg hends now tag he
    have hbetween := between_of_find? hmarked hx
    rw [hjoint, between_markJoints hg hends, if_pos (joint_mem_joints_iff.2 ⟨htype, hlinks⟩),
      between_of_find? hg he, Option.getD_some, Option.some_inj] at hbetween
    obtain ⟨edgeType, start, finish, r⟩ := e
    obtain ⟨_, _, _, written⟩ := x
    cases hjoint
    cases hbetween
    exact hx
  case others =>
    intro key e hnone
    refine find?_markJoints_of_joint_not_mem hg hends fun hmem => ?_
    obtain ⟨htype, hlinks⟩ := joint_mem_joints_iff.1 hmem
    exact hnone htype hlinks
  case created =>
    intro key e he hnew
    have hmem : e.joint ∈ g.joints l := by
      by_contra hmem
      exact nomatch hnew.symm.trans ((find?_markJoints_of_joint_not_mem hg hends hmem).1 he)
    have hfirst : ∀ k x, g.edges.find? k = some x → x.joint ≠ e.joint := by
      intro k x hx hjoint
      obtain ⟨y, hy, hsame⟩ := exists_of_markJoints hg hends now tag hx
      obtain rfl : k = key := hmarked.eq_of_joint hy he (hsame.trans hjoint)
      exact nomatch hnew.symm.trans hx
    have hbetween := between_of_find? hmarked he
    rw [between_markJoints hg hends, if_pos hmem, between_eq_none_iff.2 hfirst, Option.getD_none,
      Option.some_inj] at hbetween
    obtain ⟨htype, hlinks⟩ := joint_mem_joints_iff.1 hmem
    refine ⟨htype, hlinks, hfirst, fun name => ?_⟩
    rw [← hbetween, SortedMap.find?_insert, createdEdge, SortedMap.ofList, SortedMap.insertAll,
      List.foldl_cons, List.foldl_nil, SortedMap.find?_insert, SortedMap.find?_empty]
  case joined =>
    intro p
    rw [← isSome_between_iff, ← isSome_between_iff, between_markJoints hg hends]
    have hmem : p ∈ g.joints l ↔ p.1 = l.edgeType ∧ g.Links l p.2.1 p.2.2 := by
      rw [mem_joints, links_iff]
    rw [← hmem]
    by_cases hp : p ∈ g.joints l <;> simp [hp]
  case single => exact fun hx hy hj => hmarked.eq_of_joint hx hy hj

/-- The exact effect of a link on a well-formed graph: the pairs that it joins, each of which counts
once, what becomes of the edges, and that following it again with the same tag, at any time, changes
nothing and counts the same. -/
theorem linkByProperty_exact (hg : g.WellFormed) (now : Int) (l : PropertyLink)
    (htag : params.find? Names.sweepTag = some tag) :
    ∃ (h : Graph) (pairs : Finset (Nat × Nat)),
      g.apply now (.linkByProperty l) params = .ok (h, pairs.card) ∧
      (∀ start finish, (start, finish) ∈ pairs ↔ g.Links l start finish) ∧
      Followed now tag l g h ∧
      ∀ later again, again.find? Names.sweepTag = some tag →
        h.apply later (.linkByProperty l) again = .ok (h, pairs.card) := by
  have hends : ∀ p ∈ g.joints l, g.HasEnds p.2 := fun p hp => hasEnds_of_mem_joints hp
  have hcount : (g.joints l).length = (g.pairs l).card := List.length_map ..
  refine ⟨_, g.pairs l, ?_, fun start finish => links_iff.symm,
    followed_markJoints now tag l hg, fun later again hagain => ?_⟩
  · exact (linkByProperty_eq htag).trans (by rw [hcount])
  · have hsame : (g.markJoints now tag (g.joints l)).joints l = g.joints l :=
      joints_congr nodes_markJoints l
    refine (linkByProperty_eq hagain).trans ?_
    rw [hsame, markJoints_markJoints hg hends, hcount]

end Graph

namespace Sample

/-- Ann, who is both a person and a name in use, and a longer form of her name. -/
def ann : Node := ⟨.ofKeys ["Person", "Alias"], .ofList [("name", .str "Ann")]⟩

def drAnn : Node := ⟨.ofKeys ["Person", "Alias"], .ofList [("name", .str "Dr. ANN")]⟩

/-- The edge that is there between the two, of another run. -/
def knownSince : Edge :=
  ⟨"KNOWN_AS", 1, 2, .ofList [("since", .int 7), (Names.mark, .int 1)]⟩

def named : Graph := ((Graph.empty.addNode ann).addNode drAnn).addEdge knownSince

/-- A person is known by every name that contains the person's own. -/
def knownAs : PropertyLink := ⟨"Person", "name", "KNOWN_AS", "Alias", "name", .fuzzyCaseInsensitive⟩

def sweepTag : Parameters := .ofList [(Names.sweepTag, .int 2)]

theorem find?_sweepTag : sweepTag.find? Names.sweepTag = some (.int 2) := rfl

theorem wellFormed_named : named.WellFormed :=
  ((Graph.WellFormed.empty.addNode ann).addNode drAnn).addEdge rfl ⟨_, rfl⟩ ⟨_, rfl⟩

end Sample

namespace Graph

/-- Both are known by their own names and Ann by the longer one, but not the other way round. The
edge that was there keeps what else it carries. -/
theorem linkByProperty_exact_of_sample : ∃ h,
    Sample.named.apply 5 (.linkByProperty Sample.knownAs) Sample.sweepTag = .ok (h, 3) ∧
    h.edges.find? 3 = some { Sample.knownSince with
      properties := Sample.knownSince.properties.insert Names.mark (.int 2) } ∧
    (∃ key e, h.edges.find? key = some e ∧ e.joint = ("KNOWN_AS", 1, 1)) ∧
    (¬ ∃ key e, h.edges.find? key = some e ∧ e.joint = ("KNOWN_AS", 2, 1)) ∧
    h.apply 9 (.linkByProperty Sample.knownAs) Sample.sweepTag = .ok (h, 3) := by
  obtain ⟨h, pairs, happly, hpairs, hfollowed, hagain⟩ :=
    linkByProperty_exact Sample.wellFormed_named 5 Sample.knownAs Sample.find?_sweepTag
  have hlist : Sample.named.linkedPairs Sample.knownAs = [(1, 1), (1, 2), (2, 2)] := by decide
  have hall : pairs = {(1, 1), (1, 2), (2, 2)} := by
    ext ⟨start, finish⟩
    rw [hpairs, links_iff, hlist]
    simp
  have hcard : pairs.card = 3 := hall ▸ rfl
  rw [hcard] at happly hagain
  refine ⟨h, happly, ?_, ?_, ?_, hagain 9 _ rfl⟩
  · have hsince : Sample.named.edges.find? 3 = some Sample.knownSince := rfl
    exact hfollowed.marked hsince rfl ((hpairs 1 2).1 (hall ▸ by decide))
  · exact hfollowed.joined.2 (.inr ⟨rfl, (hpairs 1 1).1 (hall ▸ by decide)⟩)
  · intro hjoined
    rcases hfollowed.joined.1 hjoined with hbefore | ⟨-, hlinks⟩
    · rw [← isSome_between_iff] at hbefore
      cases hbefore
    · have hpair : (2, 1) ∈ pairs := (hpairs 2 1).2 hlinks
      rw [hall] at hpair
      exact absurd hpair (by decide)

end Graph

end GraphSync
