import GraphSync.Proofs.Cleanup.Effect
import GraphSync.Proofs.Load.Written

/-! A load followed by a cleanup under its tag: what the load wrote stays, what it did not goes. -/
namespace GraphSync

/-- No node of a label is marked with a tag. -/
def Graph.Unmarked (g : Graph) (label : String) (tag : Int) : Prop :=
  ∀ key node, g.nodes.find? key = some node → node.hasLabel label = true →
    ∀ mark, node.get? Names.mark = some mark → mark.agrees (.int tag) = false

instance (g : Graph) (label : String) (tag : Int) : Decidable (g.Unmarked label tag) :=
  decidable_of_iff (∀ x ∈ g.nodes.entries, x.2.hasLabel label = true →
      ∀ mark ∈ x.2.get? Names.mark, mark.agrees (.int tag) = false)
    ⟨fun h key node hn => h (key, node) (SortedMap.find?_eq_some_iff.1 hn),
      fun h x hx => h x.1 x.2 (SortedMap.find?_eq_some_iff.2 hx)⟩

namespace NodeSchema

variable {s : NodeSchema} {o : EdgeSchema} {g h i : Graph} {config : LoaderConfig}
  {now later tag : Int} {records : List Record} {params : Parameters}
  {common : CommonParameters} {summary : LoadSummary} {n : Nat}

/-- After a load and a cleanup under the same tag, a node of the schema is left, and unchanged,
exactly if the load wrote it or it had no owner in scope; whatever was loaded in batches of any
size, and removed in pages of any size. -/
theorem survives_load_and_cleanup (hg : g.Reachable) (ho : s.scopingEdge = some o)
    (hs : s.MarksLoad) (hlabel : o.target.label ∉ s.labels)
    (hapart : g.LabelsApart s.label o.target.label)
    (hold : g.Unmarked s.label tag)
    (htag : -Word.signedBound ≤ tag ∧ tag < Word.signedBound) (hcommon : common.tag = tag)
    (hload : Load.nodes config now s records params tag g = (.ok summary, h))
    (hrun : (Job.cleanup s common).run later h = (.ok n, i)) :
    ∀ key node, h.nodes.find? key = some node → node.hasLabel s.label = true →
      ((i.nodes.find? key).isSome = true ↔
        key ∈ Load.written config now s records params tag g ∨
          h.isOwned common.bound ⟨o.edgeType, o.target⟩ key = false) ∧
      (∀ left, i.nodes.find? key = some left → left = node) := by
  subst hcommon
  have hmarks := Load.marks_of_nodes hs hg.wellFormed hload
  have howners : s.OwnersApart h := by
    intro o' ho'
    cases ho.symm.trans ho'
    exact Load.labelsApart_of_nodes hload hapart hlabel
  have hscope : s.scope = some ⟨o.edgeType, o.target⟩ := scope_eq_some_iff.2 ⟨o, ho, rfl⟩
  have hnodes := nodes_of_run_sweeps howners (sweeps_of_run hrun)
  intro key node hnode hl
  have hleft : i.nodes.find? key =
      if key ∈ h.staleNodes common.bound (.int common.tag) s.label s.scope then none
      else some node := by
    rw [hnodes, Graph.find?_nodes_removeNodes, hnode]
  have hstale : key ∈ h.staleNodes common.bound (.int common.tag) s.label s.scope ↔
      node.properties.isStale (.int common.tag) = true ∧
        h.isOwned common.bound ⟨o.edgeType, o.target⟩ key = true := by
    rw [Graph.mem_staleNodes, hscope]
    constructor
    · rintro ⟨m, hm, -, ht, hi⟩
      cases hnode.symm.trans hm
      exact ⟨ht, hi⟩
    · rintro ⟨ht, hi⟩
      exact ⟨node, hnode, hl, ht, hi⟩
  have hfresh : node.properties.isStale (.int common.tag) = false ↔
      key ∈ Load.written config now s records params common.tag g := by
    constructor
    · intro hf
      refine Decidable.byContradiction fun hk => ?_
      rw [hmarks.frame key hk] at hnode
      simp [Record.isStale_iff.2 (hold key node hnode hl)] at hf
    · intro hk
      obtain ⟨m, hm, -, hmark⟩ := hmarks.marked key hk
      cases hnode.symm.trans hm
      exact Record.not_isStale_of_tagged htag hmark
  refine ⟨?_, fun left hf => ?_⟩
  · rw [hleft, ← hfresh, ← Bool.not_eq_true, ← Bool.not_eq_true, ← Decidable.not_and_iff_not_or_not,
      ← hstale]
    split <;> simp_all
  · rw [hleft] at hf
    split at hf
    · cases hf
    · exact (Option.some.inj hf).symm

end NodeSchema

/-- A bucket is loaded, and then what the project lost is swept. -/
theorem NodeSchema.survives_load_and_cleanup_of_sample :
    ∃ summary h n i, Load.nodes {} 5 Sample.bucket Sample.records Sample.params 2 Sample.start =
        (.ok summary, h) ∧
      (Job.cleanup Sample.bucket Sample.common).run 9 h = (.ok n, i) ∧
      ∀ key node, h.nodes.find? key = some node → node.hasLabel "Bucket" = true →
        ((i.nodes.find? key).isSome = true ↔
          key ∈ Load.written {} 5 Sample.bucket Sample.records Sample.params 2 Sample.start ∨
            h.isOwned Sample.common.bound ⟨"RESOURCE", Sample.inProject.target⟩ key = false) ∧
        (∀ left, i.nodes.find? key = some left → left = node) := by
  obtain ⟨summary, h, hload⟩ := Load.nodes_of_check {} 5 Sample.records Sample.start
    Sample.check_load
  obtain ⟨n, i, -, hrun⟩ := run_cleanup 9 h Sample.check_cleanup
  have howner : Sample.bucket.scopingEdge = some Sample.inProject := rfl
  have hmarks : Sample.bucket.MarksLoad := ⟨.batch Names.loadTag, rfl, rfl, rfl⟩
  have hlabel : Sample.inProject.target.label ∉ Sample.bucket.labels := by decide
  have hapart : Sample.start.LabelsApart Sample.bucket.label Sample.inProject.target.label := by
    decide
  have hold : Sample.start.Unmarked Sample.bucket.label 2 := by decide
  have htag : -Word.signedBound ≤ 2 ∧ 2 < Word.signedBound := by decide
  have hsurvives := survives_load_and_cleanup Sample.reachable_start howner hmarks hlabel hapart
    hold htag rfl hload hrun
  exact ⟨summary, h, n, i, hload, hrun, hsurvives⟩

end GraphSync
