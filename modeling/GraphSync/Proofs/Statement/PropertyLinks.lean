import GraphSync.Proofs.Statement.Texts

/-! The text of a link by property. Its five names stand in it as they are, and nothing checks
them: the text refers to the tag alone if they are identifiers, and to what they say if not. -/
namespace GraphSync

open Placeholder

/-- Labels, type and properties of a link are identifiers. -/
structure PropertyLink.Named (l : PropertyLink) : Prop where
  fromLabel : isIdentifier l.fromLabel = true
  fromProperty : isIdentifier l.fromProperty = true
  edgeType : isIdentifier l.edgeType = true
  toLabel : isIdentifier l.toLabel = true
  toProperty : isIdentifier l.toProperty = true

variable {l : PropertyLink} {a b c name : String} {ns : List String}

namespace Cypher

theorem refers_relate (ha : PlainText a) (hb : Refers b ns) (hc : PlainText c) (d : Direction) :
    Refers (relate a b c d) ns := by
  have hopen : PlainText "(" := by decide
  have hclose : PlainText ")" := by decide
  have hends : Breaks "]-(" ∧ Breaks "]->(" := by decide
  have hafter : ∀ {x y : String}, PlainText x → PlainText y → Breaks y →
      Refers (x ++ b ++ y ++ c ++ ")") ns := fun hx hy hbreaks => by
    rw [String.append_assoc, String.append_assoc]
    exact (hx.append_refers hb).append_plain (hy.append (hc.append hclose)) hbreaks.append
  cases d with
  | inward => exact hafter ((hopen.append ha).append (by decide)) (by decide) hends.1
  | outward => exact hafter ((hopen.append ha).append (by decide)) (by decide) hends.2

/-- Labels and properties of a link are plain; its text refers to what its type refers to. -/
theorem refers_propertyLinkText (hfrom : PlainText l.fromLabel)
    (hsource : PlainText l.fromProperty) (htype : Refers l.edgeType ns)
    (hto : PlainText l.toLabel) (htarget : PlainText l.toProperty) :
    Refers (propertyLinkText l) (ns ++ [Names.sweepTag]) := by
  have hi : PlainText "i" := by decide
  have hr : PlainText "r" := by decide
  have hj : PlainText "j" := by decide
  have hclose : PlainText ")" := by decide
  have hwhere : PlainText "WHERE " := by decide
  have hnull : PlainText " IS NOT NULL" := by decide
  have hmatch : PlainText ("MATCH (i:" ++ l.fromLabel ++ ")") :=
    ((by decide : PlainText "MATCH (i:").append hfrom).append hclose
  have hpresent : PlainText ("WHERE i." ++ l.fromProperty ++ " IS NOT NULL") :=
    ((by decide : PlainText "WHERE i.").append hsource).append hnull
  have hother : PlainText ("MATCH (j:" ++ l.toLabel ++ ")") :=
    ((by decide : PlainText "MATCH (j:").append hto).append hclose
  have hagree : Refers ("WHERE " ++ predicate ("j." ++ l.toProperty) ("i." ++ l.fromProperty)
      l.matchMode) [] :=
    hwhere.append_refers (refers_predicate ((by decide : PlainText "j.").append htarget)
      ((by decide : PlainText "i.").append hsource).refers l.matchMode)
  have hmerge : Refers ("MERGE " ++ relate "i" ("r:" ++ l.edgeType) "j" .outward) ns :=
    (by decide : PlainText "MERGE ").append_refers
      (refers_relate hi ((by decide : PlainText "r:").append_refers htype) hj .outward)
  have hset : Refers ("SET r." ++ Names.mark ++ " = $" ++ Names.sweepTag) [Names.sweepTag] :=
    refers_reference (by decide : PlainText ("SET r." ++ Names.mark))
      (by decide : PlainText " = ") (by decide) (by decide)
  have hreturn : PlainText returnAffected := by decide
  have hall := ReferAll.cons hmatch.refers (.cons hpresent.refers (.cons hother.refers (.cons hagree
    (.cons hmerge (.cons (plainText_onCreate hr).refers (.cons hset
      (.singleton hreturn.refers)))))))
  exact refers_lines hall

end Cypher

namespace PropertyLink.Named

/-- A link whose names are identifiers asks for the tag, and for nothing else. -/
theorem parameters_eq (hl : l.Named) :
    (Statement.linkByProperty l).parameters = [Names.sweepTag] :=
  (Cypher.refers_propertyLinkText (plainText_of_isIdentifier hl.fromLabel)
    (plainText_of_isIdentifier hl.fromProperty) (plainText_of_isIdentifier hl.edgeType).refers
    (plainText_of_isIdentifier hl.toLabel) (plainText_of_isIdentifier hl.toProperty)).names_eq

/-- A dollar sign and a name at the end of the type make the link ask for the name as well. -/
theorem mem_parameters_iff (hl : l.Named) (hname : isIdentifier name = true) {asked : String} :
    asked ∈ (Statement.linkByProperty
      { l with edgeType := l.edgeType ++ "$" ++ name }).parameters ↔
        asked = name ∨ asked = Names.sweepTag := by
  have htype : Refers (l.edgeType ++ "$" ++ name) [name] := by
    rw [String.append_assoc]
    exact (plainText_of_isIdentifier hl.edgeType).append_refers (refers_dollar hname)
  have hrefers := Cypher.refers_propertyLinkText
    (l := { l with edgeType := l.edgeType ++ "$" ++ name })
    (plainText_of_isIdentifier hl.fromLabel) (plainText_of_isIdentifier hl.fromProperty) htype
    (plainText_of_isIdentifier hl.toLabel) (plainText_of_isIdentifier hl.toProperty)
  exact hrefers.mem_names.trans (by simp)

end PropertyLink.Named

end GraphSync
