import DefaultLogic.Dataset.Json
import DefaultLogic.Dataset.Written
import DefaultLogic.Proofs.Json.RoundTrip

/-!
# Reading documents

What a document says is read off its fields, which are looked up one by one.

* `Dataset.Format.json_isFaithful`: **the document of a theory is read as what it says.**
* `Dataset.read_fact`: a document may tell a single fact.
-/

namespace DefaultLogic

theorem Json.texts?_texts {nestings : Nat} (h : nestings ≠ 0) (ss : List String) :
    texts? nestings (texts ss) = some ss := by
  rw [texts, texts?, if_neg h]
  induction ss with
  | nil => rfl
  | cons s ss ih =>
    rw [List.map_cons, List.mapM_cons, ih]
    rfl

theorem Json.readable_texts {nestings : Nat} (h : nestings ≠ 0) (ss : List String) :
    (texts ss).readable nestings = true := by
  have hall : (ss.map Json.string).all (readable (nestings - 1)) = true := by
    rw [List.all_map]
    exact List.all_eq_true.2 fun s _ => by rw [Function.comp_apply, readable]
  rw [texts, readable_array, hall, Bool.and_true]
  exact decide_eq_true (Nat.pos_of_ne_zero h)

namespace Dataset

variable (dialect : String) (rules facts : List String)

def members : List (String × Json) :=
  [("format", .string dialect), ("fact", .texts facts), ("rule", .texts rules)]

theorem isTextual_document : (document dialect rules facts).IsTextual := by
  have hmembers : ∀ m ∈ members dialect rules facts, m.2.IsTextual :=
    List.forall_mem_cons.2 ⟨.string _, List.forall_mem_cons.2 ⟨Json.isTextual_texts _,
      List.forall_mem_singleton.2 (Json.isTextual_texts _)⟩⟩
  exact .object hmembers

theorem ofJson?_document :
    Content.ofJson? (document dialect rules facts) =
      some { format? := some dialect, theories := [{ rules, facts }] } := by
  have hnestings : nestings - 1 ≠ 0 := by decide
  let fields : Json.Fields := fun k => (members dialect rules facts).lookup k
  have hmembers :
      (document dialect rules facts).members? = some (members dialect rules facts) := rfl
  have hfields : Json.Fields.ofMembers? (keys ++ Spec.keys) (members dialect rules facts) =
      some fields := rfl
  have hreadable : ((members dialect rules facts).all fun m =>
      m.1 = "dataset" || m.2.readable (nestings - 1)) = true := by
    have htexts := Json.readable_texts hnestings
    simp [members, htexts, Json.readable]
  have hrules : fields.get? "rule" [] (Json.texts? (nestings - 1)) = some rules :=
    Json.texts?_texts hnestings _
  have hfacts : fields.get? "fact" [] (Json.texts? (nestings - 1)) = some facts :=
    Json.texts?_texts hnestings _
  have hown : ∀ readAdditions,
      Spec.ofFields? (nestings - 1) readAdditions fields = some { rules, facts } := by
    intro readAdditions
    rw [Spec.ofFields?]
    dsimp only
    rw [hrules, hfacts]
    rfl
  rw [Content.ofJson?, hmembers]
  simp only [Option.bind_eq_bind, Option.bind_some, hfields, hown]
  rw [if_pos hreadable]
  rfl

namespace Format

theorem read_json {text : String} {j : Json} {c : Content} (hparse : Json.parse? text = some j)
    (hcontent : Content.ofJson? j = some c) : json.read text = .ok c := by
  simp only [json, hparse, hcontent]

/-- **The document of a theory is read as what it says.** -/
theorem json_isFaithful : json.IsFaithful := by
  intro dialect rules facts
  have hnewline : ∀ c ∈ "\n".toList, Json.isSpace c = true := List.forall_mem_singleton.2 rfl
  exact read_json (Json.parse?_render_append (isTextual_document dialect rules facts) hnewline)
    (ofJson?_document dialect rules facts)

end Format

end Dataset

end DefaultLogic
