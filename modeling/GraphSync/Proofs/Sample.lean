import GraphSync.Proofs.Cleanup.Run
import GraphSync.Proofs.Graph.Calls
import GraphSync.Proofs.Load.Batches

/-! A small schema with an owner and one more edge, and graphs and records to run it on. -/
namespace GraphSync.Sample

/-- Properties of an edge that is marked and nothing else. -/
def marked : EdgeProperties where
  mapping := [(Names.mark, .batch Names.loadTag)]
  wellFormed := ⟨by decide, by decide⟩
  unreserved := by decide
  marked := by decide

/-- The node whose identity is a given reference. -/
def identified (r : PropertyRef) (hr : r.WellFormed) : Matcher where
  mapping := [(Names.id, r)]
  wellFormed := ⟨List.forall_mem_singleton.2 ⟨(by decide : isIdentifier Names.id = true), hr⟩,
    List.pairwise_singleton _ _⟩
  nonempty := List.cons_ne_nil _ _
  single := List.countP_le_length

/-- Buckets belong to one project and have a tag. -/
def inProject : EdgeSchema where
  edgeType := "RESOURCE"
  direction := .inward
  target := ⟨"Project", identified (.batch "PROJECT_ID") (by decide)⟩
  properties := marked
  source := none
  valid := EdgePlan.fault?_eq_none_iff.1 (by decide)

def tagged : EdgeSchema where
  edgeType := "TAGGED"
  direction := .outward
  target := ⟨"Tag", identified (.field "tag") (by decide)⟩
  properties := marked
  source := none
  valid := EdgePlan.fault?_eq_none_iff.1 (by decide)

def bucket : NodeSchema where
  label := "Bucket"
  properties := {
    mapping := [(Names.id, .field "id"), (Names.mark, .batch Names.loadTag)]
    wellFormed := ⟨by decide, by decide⟩
    unreserved := by decide
    marked := by decide
    identified := by decide }
  owner := some inProject
  edges := [tagged]
  valid := NodePlan.fault?_eq_none_iff.1 (by decide)

/-- Hosts belong to the same projects as buckets, and have the same tags. -/
def host : NodeSchema :=
  { bucket with label := "Host", valid := NodePlan.fault?_eq_none_iff.1 (by decide) }

/-- Standalone edges from buckets to tags, each on behalf of an owner. -/
def granted : EdgeSchema where
  edgeType := "GRANTED"
  direction := .outward
  target := ⟨"Tag", identified (.field "tag") (by decide)⟩
  properties := {
    mapping := [(Names.mark, .batch Names.loadTag), (Names.ownerLabel, .batch "OWNER_LABEL"),
      (Names.ownerId, .batch "OWNER_ID")]
    wellFormed := ⟨by decide, by decide⟩
    unreserved := by decide
    marked := by decide }
  source := some ⟨"Bucket", identified (.field "id") (by decide)⟩
  valid := EdgePlan.fault?_eq_none_iff.1 (by decide)

/-- The account on whose behalf buckets are granted. -/
def account : Parameters :=
  SortedMap.ofList [("OWNER_LABEL", .str "Account"), ("OWNER_ID", .str "a")]

def grant : Record := SortedMap.ofList [("id", .str "old"), ("tag", .str "t")]

/-- A node of one label, with an identity and a mark. -/
def node (label id : String) (mark : Int) : Node :=
  ⟨.ofKeys [label], SortedMap.ofList [(Names.id, .str id), (Names.mark, .int mark)]⟩

def edge (edgeType : String) (start finish : Nat) (mark : Int) : Edge :=
  ⟨edgeType, start, finish, SortedMap.ofList [(Names.mark, .int mark)]⟩

/-- A project with a bucket of the last run and one of this run. -/
def stored : Graph :=
  [node "Bucket" "old" 1, node "Bucket" "new" 2, node "Tag" "t" 2].foldl Graph.addNode
    (Graph.empty.addNode (node "Project" "p" 2))
  |> fun g => [edge "RESOURCE" 1 2 1, edge "RESOURCE" 1 3 2, edge "TAGGED" 3 4 1].foldl
    Graph.addEdge g

/-- The cleanup of the project's buckets, one at a time. -/
def common : CommonParameters := ⟨2, 1, some ("PROJECT_ID", .str "p"), .empty⟩

/-- The cleanup of what the account was granted. -/
def accountCleanup : CommonParameters := ⟨2, 1, none, account⟩

/-- A project and a bucket that the last run left behind. -/
def start : Graph :=
  (Graph.empty.addNode (node "Project" "p" 1)).addNode (node "Bucket" "old" 1)

theorem reachable_start : start.Reachable := .seed _ _ (.seed _ _ .empty)

/-- A bucket and a tag, with nothing between them. -/
def apart : Graph :=
  (Graph.empty.addNode (node "Bucket" "old" 1)).addNode (node "Tag" "t" 1)

theorem reachable_apart : apart.Reachable := .seed _ _ (.seed _ _ .empty)

def records : List Record := [SortedMap.ofList [("id", .str "new"), ("tag", .str "t")], .empty]

def params : Parameters := SortedMap.ofList [("PROJECT_ID", .str "p")]

/-- Batches of buckets, the second with one more of them. -/
def oneBucket : List Record := [SortedMap.ofList [("id", .str "old")]]

def twoBuckets : List Record := oneBucket ++ [SortedMap.ofList [("id", .str "new")]]

theorem check_cleanup : (Job.cleanup bucket common).check = .ok () := by
  refine NodeSchema.check_cleanup_iff.2 fun scope hscope => ?_
  obtain rfl := Option.some_inj.1 hscope
  exact List.forall_mem_singleton.2 (by decide)

theorem check_load : ∀ st ∈ bucket.loadStatements,
    BoundStatement.check ⟨st, Load.baseParameters params 2⟩ = .ok () :=
  Load.forall_check_iff.2 (by decide)

end GraphSync.Sample
