import GraphSync.Proofs.Statement.Clauses

/-! How the texts of loads and sweeps begin: a batch, some nodes, nodes of an owner, or edges. -/
namespace GraphSync

open Placeholder Cypher

/-- How the text of a load or of a sweep begins. -/
inductive Opening where
  | batch
  | nodes (label : String)
  /-- A node and its owner, with a name for the edge or without. -/
  | owned (named : Bool) (label edgeType ownerLabel : String)
  | incident (label : String) (edge : EdgePattern)

namespace Opening

def text : Opening → String
  | batch => unwindBatch
  | nodes label => "MATCH (n:" ++ label ++ ")"
  | owned named label edgeType ownerLabel =>
    "MATCH " ++ relate ("n:" ++ label) ((if named then "r" else "") ++ ":" ++ edgeType)
      ("s:" ++ ownerLabel) .inward
  | incident label e => edgeMatch ("n:" ++ label) e

/-- The names in it are identifiers. -/
def Named : Opening → Prop
  | batch => True
  | nodes label => isIdentifier label = true
  | owned _ label edgeType ownerLabel => isIdentifier label = true ∧
      isIdentifier edgeType = true ∧ isIdentifier ownerLabel = true
  | incident label e => isIdentifier label = true ∧ isIdentifier e.edgeType = true ∧
      isIdentifier e.otherLabel = true

variable {o o' : Opening} {x y label label' a b : String} {q : Prop} {d : Direction}

theorem reveals_named (h : isIdentifier label = true) (h' : isIdentifier label' = true) :
    Reveals ("n:" ++ label) ("n:" ++ label') (label = label') :=
  (reveals_name h h').prepend "n:"

/-- A pattern of one node ends where that of an edge goes on. -/
theorem reveals_nodes_relate (h : isIdentifier label = true) (h' : isIdentifier label' = true) :
    Reveals ((nodes label).text ++ ("\n" ++ x)) ("MATCH " ++ relate ("n:" ++ label') a b d ++ y)
      q := by
  have hnodes : (nodes label).text ++ ("\n" ++ x) =
      "MATCH " ++ ("(" ++ ("n:" ++ label ++ (")\n" ++ x))) := by
    have hlead : "MATCH (n:" = "MATCH " ++ "(" ++ "n:" := by decide
    have hend : ")\n" = ")" ++ "\n" := by decide
    simp only [text, hlead, hend, String.append_assoc]
  have hrelate : ∃ z mid, "MATCH " ++ relate ("n:" ++ label') a b d ++ y =
      "MATCH " ++ ("(" ++ ("n:" ++ label' ++ (mid ++ z))) ∧ Forks ")\n" mid ∧ Breaks mid := by
    cases d
    · exact ⟨_, ")<-[", by simp only [relate, String.append_assoc]; rfl, by decide, by decide⟩
    · exact ⟨_, ")-[", by simp only [relate, String.append_assoc]; rfl, by decide, by decide⟩
  obtain ⟨z, mid, hz, hforks, hbreaks⟩ := hrelate
  rw [hnodes, hz]
  exact (((reveals_named h h').then_forks hforks (by decide) hbreaks).prepend _).prepend _

theorem reveals_owned {named named' : Bool} {edgeType edgeType' owner owner' : String}
    (ho : (owned named label edgeType owner).Named)
    (ho' : (owned named' label' edgeType' owner').Named) :
    Reveals (owned named label edgeType owner).text (owned named' label' edgeType' owner').text
      (owned named label edgeType owner = owned named' label' edgeType' owner') := by
  have hedge : Reveals ((if named then "r" else "") ++ ":" ++ edgeType)
      ((if named' then "r" else "") ++ ":" ++ edgeType')
      (named = named' ∧ edgeType = edgeType') := by
    have hname := reveals_name ho.2.1 ho'.2.1
    have hkinds : Forks (":" ++ edgeType) ("r:" ++ edgeType') := Forks.append (by decide)
    have hkinds' : Forks ("r:" ++ edgeType) (":" ++ edgeType') := Forks.append (by decide)
    cases named <;> cases named'
    · exact (hname.prepend ":").mono fun h => ⟨rfl, h⟩
    · exact .of_forks hkinds
    · exact .of_forks hkinds'
    · exact (hname.prepend "r:").mono fun h => ⟨rfl, h⟩
  have howner : Reveals ("s:" ++ owner) ("s:" ++ owner') (owner = owner') :=
    (reveals_name ho.2.2 ho'.2.2).prepend "s:"
  refine ((reveals_relate (reveals_named ho.1 ho'.1) (fun _ => hedge) fun _ => howner).prepend
    "MATCH ").mono ?_
  rintro ⟨rfl, -, ⟨rfl, rfl⟩, rfl⟩
  rfl

theorem reveals_incident {e e' : EdgePattern} (ho : (incident label e).Named)
    (ho' : (incident label' e').Named) :
    Reveals (incident label e).text (incident label' e').text
      (incident label e = incident label' e') :=
  (reveals_edgeMatch (reveals_named ho.1 ho'.1) ho.2.1 ho.2.2 ho'.2.1 ho'.2.2).mono
    fun ⟨hlabel, he⟩ => by rw [hlabel, he]

/-- The other node of an edge has no name, an owner has one. -/
theorem reveals_owned_incident {named : Bool} {edgeType owner : String} {e : EdgePattern}
    (ho : (owned named label edgeType owner).Named) (ho' : (incident label' e).Named) :
    Reveals (owned named label edgeType owner).text (incident label' e).text q := by
  have hedge : Reveals ((if named then "r" else "") ++ ":" ++ edgeType) ("r:" ++ e.edgeType)
      True := by
    cases named
    · exact .of_forks (Forks.append (a := ":") (b := "r:") (by decide))
    · exact ((reveals_name ho.2.1 ho'.2.1).prepend "r:").mono fun _ => trivial
  have hother : Reveals ("s:" ++ owner) (":" ++ e.otherLabel) False :=
    .of_forks (Forks.append (by decide))
  exact ((reveals_relate (reveals_named ho.1 ho'.1) (fun _ => hedge) fun _ => hother).prepend
    "MATCH ").mono fun h => h.2.2.2.elim

theorem forks_batch (ho : o ≠ batch) : Forks batch.text o.text := by
  cases o with
  | batch => exact absurd rfl ho
  | nodes label =>
    simp only [text, String.append_assoc]
    exact (by decide : Forks _ "MATCH (n:").append_right
  | owned _ _ _ _ | incident _ _ => exact (by decide : Forks _ "MATCH ").append_right

/-- How a text begins shows in it. -/
theorem reveals (ho : o.Named) (ho' : o'.Named)
    (h : o = o' → Reveals ("\n" ++ x) ("\n" ++ y) q) :
    Reveals (o.text ++ ("\n" ++ x)) (o'.text ++ ("\n" ++ y)) (o = o' ∧ q) := by
  have hbatch : ∀ o, o ≠ batch → Reveals (batch.text ++ ("\n" ++ x)) (o.text ++ ("\n" ++ y))
      (batch = o ∧ q) := fun o ho => .of_forks (forks_batch ho).append
  have hbatch' : ∀ o, o ≠ batch → Reveals (o.text ++ ("\n" ++ x)) (batch.text ++ ("\n" ++ y))
      (o = batch ∧ q) := fun o ho => (Reveals.of_forks (forks_batch ho).append).symm
  have hcloses : ∀ x, Closes ("\n" ++ x) := fun x => (Breaks.append (by decide)).closes
  have hnode : ∀ {label label'}, isIdentifier label = true → isIdentifier label' = true →
    Reveals (nodes label).text (nodes label').text (nodes label = nodes label') := fun h h' =>
      (((reveals_name h h').prepend _).append_same (by decide)).mono fun heq => by rw [heq]
  cases o with
  | batch =>
    cases o' with
    | batch => exact ((h rfl).prepend _).mono fun hq => ⟨rfl, hq⟩
    | nodes _ | owned _ _ _ _ | incident _ _ => exact hbatch _ (by simp)
  | nodes label =>
    cases o' with
    | batch => exact hbatch' _ (by simp)
    | nodes label' => exact (hnode ho ho').append h (hcloses _) (hcloses _)
    | owned named label' edgeType owner => exact reveals_nodes_relate ho ho'.1
    | incident label' e => exact reveals_nodes_relate ho ho'.1
  | owned named label edgeType owner =>
    cases o' with
    | batch => exact hbatch' _ (by simp)
    | nodes label' => exact (reveals_nodes_relate ho' ho.1).symm
    | owned named' label' edgeType' owner' =>
      exact (reveals_owned ho ho').append h (hcloses _) (hcloses _)
    | incident label' e =>
      exact (reveals_owned_incident ho ho').append h (hcloses _) (hcloses _)
  | incident label e =>
    cases o' with
    | batch => exact hbatch' _ (by simp)
    | nodes label' => exact (reveals_nodes_relate ho' ho.1).symm
    | owned named' label' edgeType' owner' =>
      exact (reveals_owned_incident ho' ho).symm.append h (hcloses _) (hcloses _)
    | incident label' e => exact (reveals_incident ho ho').append h (hcloses _) (hcloses _)

end Opening

end GraphSync
