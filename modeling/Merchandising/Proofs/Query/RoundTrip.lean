/-
  Written fragments are read back, as JSON values.

  * `ScoreFunction.toJson` is what is written for a score function;
  * `Query.fragments` and `Query.functions` are what stands directly inside a condition, and less
    deep than the condition itself (`depth_fragment`, `depth_function`);
  * `ofFields?_toJson`: a condition is read back if what stands inside it is;
  * `Fragment.ofJson?_toJson` and `StoredQuery.ofJson?_toJson`: fragments and stored queries are.
-/
import Merchandising.Proofs.Query.Fields

namespace Merchandising

open Json (member?_eq slots? optional?_map listOf?_map defaulted?_clauses tagged?_kindRecord)

/-! ## Values -/

theorem Scalar.ofJson?_toJson (v : Scalar) : Scalar.ofJson? v.toJson = some v := by
  cases v with
  | int n =>
    simp only [toJson, ofJson?, Text.fit64?]
    rw [if_pos ⟨n.minValue_le_toInt, n.toInt_le⟩, Int64.ofInt_toInt]
  | _ => rfl

theorem Scalar.toJson_ne_null (v : Scalar) : v.toJson ≠ .null := by
  cases v <;> nofun

theorem Bounds.ofJson?_toJson (b : Bounds) : Bounds.ofJson? (Query.boundsJson b) = some b := by
  have h : ∀ o : Option Scalar, Json.optional? Scalar.ofJson? (o.map Scalar.toJson) = some o :=
    fun o => optional?_map (fun v _ => v.ofJson?_toJson) Scalar.toJson_ne_null
  simp [Bounds.ofJson?, Query.boundsJson, slots?, Json.Slot.omitted, member?_eq, h]

theorem optional_text (o : Option String) :
    Json.optional? Json.text? (o.map Json.text) = some o :=
  optional?_map (fun _ _ => rfl) nofun

theorem optional_float (o : Option Float) :
    Json.optional? Json.float? (o.map Json.float) = some o :=
  optional?_map (fun _ _ => rfl) nofun

theorem FieldFactor.ofJson?_toJson (f : FieldFactor) :
    FieldFactor.ofJson? (Query.factorJson f) = some f := by
  simp [FieldFactor.ofJson?, Query.factorJson, slots?, Json.Slot.omitted, Json.Slot.needed,
    member?_eq, optional_float]

theorem modeOfJson?_modeJson (m : CombineMode) : modeOfJson? (Query.modeJson m) = some m := by
  cases m <;> rfl

theorem optional_mode (o : Option CombineMode) :
    Json.optional? modeOfJson? (o.map Query.modeJson) = some o :=
  optional?_map (fun m _ => modeOfJson?_modeJson m) nofun

/-! ## Weights -/

/-- A binding behind all others is added at the end. -/
theorem Keyed.put_last {β : Type} {key : String} {value : β} {es : List (String × β)}
    (h : ∀ e ∈ es, e.1 < key) : Keyed.put key value es = es ++ [(key, value)] := by
  induction es with
  | nil => rfl
  | cons e r ih =>
    have he : e.1 < key := h e (by simp)
    rw [Keyed.put, if_neg (String.lt_asymm he), if_neg (String.ne_of_lt he).symm,
      ih fun x hx => h x (by simp [hx])]
    rfl

/-- A sorted list is the list of the map that it makes. -/
theorem KeyedMap.ofList_entries {β : Type} (m : KeyedMap β) : KeyedMap.ofList m.entries = m := by
  have hfold : ∀ (es : List (String × β)) (m : KeyedMap β), Keyed.Sorted (m.entries ++ es) →
      (es.foldl (fun m e => m.insert e.1 e.2) m).entries = m.entries ++ es := by
    intro es
    induction es with
    | nil => simp
    | cons e es ih =>
      intro m h
      have hput : (m.insert e.1 e.2).entries = m.entries ++ [e] :=
        Keyed.put_last fun x hx => (List.pairwise_append.1 h).2.2 x hx e (by simp)
      rw [List.foldl_cons, ih _ (by simpa [hput] using h), hput]
      simp
  have h := hfold m.entries .empty m.sorted
  cases m
  rw [KeyedMap.ofList]
  generalize List.foldl _ _ _ = m' at h
  cases m'
  simpa [KeyedMap.empty] using h

theorem Weights.ofJson?_weightsJson (w : Weights) :
    Weights.ofJson? (Query.weightsJson w) = some w := by
  have hread : (w.entries.map fun (e : String × Float) => (e.1, Json.float e.2)).mapM
      (fun m => (Json.float? m.2).map fun x => (m.1, x)) = some w.entries :=
    Json.mapM_map fun _ _ => rfl
  rw [Query.weightsJson, Weights.ofJson?]
  simp only [hread, Option.map_some, KeyedMap.ofList_entries]

/-! ## Fragments -/

/-- A score function as JSON. -/
def ScoreFunction.toJson : ScoreFunction → Json
  | .mk filter weight factor =>
    .record (Query.optionalMember "filter" Fragment.toJson filter ++
      Query.optionalMember "weight" Json.float weight ++
      Query.optionalMember "field_value_factor" Query.factorJson factor)

theorem fragmentsJson_eq (fs : List Fragment) : fragmentsJson fs = fs.map Fragment.toJson := by
  induction fs with
  | nil => rfl
  | cons f fs ih => rw [fragmentsJson, ih, List.map_cons]

theorem functionsJson_eq (fs : List ScoreFunction) :
    functionsJson fs = fs.map ScoreFunction.toJson := by
  induction fs with
  | nil => rfl
  | cons f fs ih =>
    obtain ⟨filter, weight, factor⟩ := f
    cases filter <;> rw [functionsJson, ih, List.map_cons] <;> rfl

theorem Fragment.toJson_ne_null (f : Fragment) : f.toJson ≠ .null := by
  cases f
  rw [toJson]
  nofun

theorem ScoreFunction.ofFields?_toJson {fragment : Json → Option Fragment} {filter : Option Fragment}
    {weight : Option Float} {factor : Option FieldFactor}
    (h : ∀ f ∈ filter, fragment f.toJson = some f) :
    ScoreFunction.ofFields? fragment (ScoreFunction.mk filter weight factor).toJson =
      some (.mk filter weight factor) := by
  have hfilter := optional?_map h Fragment.toJson_ne_null
  have hfactor : Json.optional? FieldFactor.ofJson? (factor.map Query.factorJson) = some factor :=
    optional?_map (fun f _ => f.ofJson?_toJson) nofun
  simp [ScoreFunction.ofFields?, toJson, slots?, Json.Slot.omitted, member?_eq, optional_float,
    hfilter, hfactor]

theorem Fragment.ofFields?_toJson {query : Json → Option Query} {name : Option String} {q : Query}
    (h : query q.toJson = some q) :
    Fragment.ofFields? query (Fragment.mk name q).toJson = some (.mk name q) := by
  simp [Fragment.ofFields?, toJson, slots?, Json.Slot.omitted, Json.Slot.needed, member?_eq,
    optional_text, h]

/-- The fragments that stand directly inside a condition. -/
def Query.fragments : Query → List Fragment
  | .bool must should mustNot _ => must ++ should ++ mustNot
  | .nested _ inner => [inner]
  | .not inner => [inner]
  | .scored inner _ _ _ => [inner]
  | _ => []

/-- The score functions that stand directly inside a condition. -/
def Query.functions : Query → List ScoreFunction
  | .scored _ functions _ _ => functions
  | _ => []

namespace Query

variable {fragment : Json → Option Fragment} {function : Json → Option ScoreFunction}
  {place : Json.Place}

/-- A condition is read by its kind. -/
theorem read_kindRecord {q : Query} {name : String} {kind : QueryKind}
    {fields : List (String × Json)} (hq : q.toJson = kindRecord name fields)
    (hname : QueryKind.names.lookup name = some kind)
    (hfields : fields.filter (fun m => decide (m.1 = "type")) = [])
    (hread : ofFields? fragment function kind (.record fields) = some q) :
    (q.toJson.tagged? place "type" QueryKind.names).bind
      (fun p => ofFields? fragment function p.1 p.2) = some q := by
  rw [hq, tagged?_kindRecord hname hfields, Option.bind_some, hread]

/-- A condition is read if what stands inside it is. -/
theorem ofFields?_toJson (q : Query) (hf : ∀ f ∈ q.fragments, fragment f.toJson = some f)
    (hs : ∀ s ∈ q.functions, function s.toJson = some s) :
    (q.toJson.tagged? place "type" QueryKind.names).bind
      (fun p => ofFields? fragment function p.1 p.2) = some q := by
  have hscalars : ∀ vs : List Scalar,
      Json.listOf? Scalar.ofJson? (.list (vs.map Scalar.toJson)) = some vs :=
    fun vs => listOf?_map fun v _ => v.ofJson?_toJson
  have htexts : ∀ ts : List String, textsOfJson? (textsJson ts) = some ts :=
    fun ts => listOf?_map fun _ _ => rfl
  cases q with
  | bool must should mustNot minimum =>
    simp only [fragments, List.mem_append] at hf
    have hmust := defaulted?_clauses fun f h => hf f (Or.inl (Or.inl h))
    have hshould := defaulted?_clauses fun f h => hf f (Or.inl (Or.inr h))
    have hnot := defaulted?_clauses fun f h => hf f (Or.inr h)
    have hmin : Json.optional? Json.word32? (minimum.map fun n => Json.int n.toNat) = some minimum :=
      optional?_map (fun n _ => Json.word32?_int n) nofun
    refine read_kindRecord rfl rfl (by simp) ?_
    simp [ofFields?, slots?, Json.Slot.omitted, member?_eq, fragmentsJson_eq, hmust, hshould, hnot,
      hmin]
  | term field value =>
    refine read_kindRecord rfl rfl (by simp) ?_
    simp [ofFields?, slots?, Json.Slot.needed, member?_eq, value.ofJson?_toJson]
  | terms field values =>
    refine read_kindRecord rfl rfl (by simp) ?_
    simp [ofFields?, slots?, Json.Slot.needed, member?_eq, hscalars]
  | range field bounds =>
    refine read_kindRecord rfl rfl (by simp) ?_
    simp [ofFields?, slots?, Json.Slot.needed, member?_eq, bounds.ofJson?_toJson]
  | nested path inner =>
    have hinner := hf inner (by simp [fragments])
    refine read_kindRecord rfl rfl (by simp) ?_
    simp [ofFields?, slots?, Json.Slot.needed, member?_eq, hinner]
  | not inner =>
    have hinner := hf inner (by simp [fragments])
    refine read_kindRecord rfl rfl (by simp) ?_
    simp [ofFields?, slots?, Json.Slot.needed, member?_eq, hinner]
  | present field =>
    refine read_kindRecord rfl rfl (by simp) ?_
    simp [ofFields?, slots?, Json.Slot.needed, member?_eq]
  | absent field =>
    refine read_kindRecord rfl rfl (by simp) ?_
    simp [ofFields?, slots?, Json.Slot.needed, member?_eq]
  | words field text fuzziness minimum =>
    refine read_kindRecord rfl rfl (by simp [matchOptions]) ?_
    simp [ofFields?, slots?, Json.Slot.needed, Json.Slot.omitted, member?_eq, matchOptions,
      optional_text]
  | weighted fields text fuzziness minimum =>
    refine read_kindRecord rfl rfl (by simp [matchOptions]) ?_
    simp [ofFields?, slots?, Json.Slot.needed, Json.Slot.omitted, member?_eq, matchOptions,
      optional_text, Weights.ofJson?_weightsJson]
  | scored inner functions scoreMode boostMode =>
    have hinner := hf inner (by simp [fragments])
    have hfunctions : Json.listOf? function (.list (functionsJson functions)) = some functions := by
      rw [functionsJson_eq]
      exact listOf?_map hs
    refine read_kindRecord rfl rfl (by simp) ?_
    simp [ofFields?, slots?, Json.Slot.needed, Json.Slot.omitted, member?_eq, optional_mode, hinner,
      hfunctions]
  | similar fields like minimum =>
    refine read_kindRecord rfl rfl (by simp) ?_
    simp [ofFields?, slots?, Json.Slot.needed, Json.Slot.omitted, member?_eq, optional_text, htexts]
  | startsWith field value =>
    refine read_kindRecord rfl rfl (by simp) ?_
    simp [ofFields?, slots?, Json.Slot.needed, member?_eq]
  | pattern field value =>
    refine read_kindRecord rfl rfl (by simp) ?_
    simp [ofFields?, slots?, Json.Slot.needed, member?_eq]

/-! ## Depth -/

theorem depth_pos (q : Query) : 0 < q.toJson.depth := by
  cases q <;> rw [toJson, kindRecord, Json.depth] <;> exact Nat.succ_pos _

theorem depth_clause {f : Fragment} {fs : List Fragment} {name : String}
    {members : List (String × Json)} (hf : f ∈ fs)
    (hmembers : clauseMember name (fragmentsJson fs) ⊆ members) :
    f.toJson.depth < (Json.record members).depth := by
  have hmem : f.toJson ∈ fragmentsJson fs := by
    rw [fragmentsJson_eq]
    exact List.mem_map_of_mem hf
  exact Nat.lt_trans (Json.depth_lt_list hmem)
    (Json.depth_lt_record (hmembers (Json.mem_clauseMember hmem)))

/-- A fragment inside a condition nests less deep than the condition. -/
theorem depth_fragment {q : Query} {f : Fragment} (h : f ∈ q.fragments) :
    f.toJson.depth < q.toJson.depth := by
  cases q with
  | bool must should mustNot minimum =>
    rw [toJson, kindRecord]
    simp only [fragments, List.mem_append] at h
    rcases h with (h | h) | h
    · exact @depth_clause _ _ "must" _ h fun m hm => by simp [hm]
    · exact @depth_clause _ _ "should" _ h fun m hm => by simp [hm]
    · exact @depth_clause _ _ "must_not" _ h fun m hm => by simp [hm]
  | nested path inner =>
    obtain rfl := List.mem_singleton.1 h
    rw [toJson, kindRecord]
    exact @Json.depth_lt_record "query" _ _ (by simp)
  | not inner =>
    obtain rfl := List.mem_singleton.1 h
    rw [toJson, kindRecord]
    exact @Json.depth_lt_record "query" _ _ (by simp)
  | scored inner functions scoreMode boostMode =>
    obtain rfl := List.mem_singleton.1 h
    rw [toJson, kindRecord]
    exact @Json.depth_lt_record "query" _ _ (by simp)
  | _ => simp [fragments] at h

/-- So does the filter of a score function inside it. -/
theorem depth_function {q : Query} {s : ScoreFunction} (h : s ∈ q.functions) :
    s.toJson.depth < q.toJson.depth := by
  cases q with
  | scored inner functions scoreMode boostMode =>
    have hmem : s.toJson ∈ functionsJson functions := by
      rw [functionsJson_eq]
      exact List.mem_map_of_mem h
    rw [toJson, kindRecord]
    refine Nat.lt_trans (Json.depth_lt_list hmem) ?_
    exact @Json.depth_lt_record "functions" _ _ (by simp)
  | _ => simp [functions] at h

theorem depth_filter {filter : Option Fragment} {weight : Option Float} {factor : Option FieldFactor}
    {f : Fragment} (h : f ∈ filter) :
    f.toJson.depth < (ScoreFunction.mk filter weight factor).toJson.depth := by
  rw [ScoreFunction.toJson]
  refine @Json.depth_lt_record "filter" _ _ ?_
  simp [Json.mem_optionalMember h]

theorem depth_query (name : Option String) (q : Query) :
    q.toJson.depth < (Fragment.mk name q).toJson.depth := by
  rw [Fragment.toJson]
  exact @Json.depth_lt_record "query" _ _ (by simp)

/-- **A written condition is read back if it is allowed to nest as deep as it does.** -/
theorem readWithin_toJson {depth : Nat} (q : Query) (h : q.toJson.depth ≤ depth) :
    Query.readWithin depth place q.toJson = some q := by
  induction depth generalizing q place with
  | zero => exact absurd h (Nat.not_le.2 q.depth_pos)
  | succ depth ih =>
    have hf : ∀ f : Fragment, f.toJson.depth ≤ depth →
        Fragment.ofFields? (Query.readWithin depth .tagged) f.toJson = some f := by
      rintro ⟨name, q⟩ hf
      exact Fragment.ofFields?_toJson (ih q (Nat.le_trans (Nat.le_of_lt (depth_query name q)) hf))
    have hs : ∀ s ∈ q.functions, ScoreFunction.ofFields?
        (Fragment.ofFields? (Query.readWithin depth .tagged)) s.toJson = some s := by
      rintro ⟨filter, weight, factor⟩ hs
      refine ScoreFunction.ofFields?_toJson fun f hfilter => hf f ?_
      have h1 := depth_function hs
      have h2 : f.toJson.depth < (ScoreFunction.mk filter weight factor).toJson.depth :=
        depth_filter hfilter
      omega
    have hread := @ofFields?_toJson _ _ place q (fun f hm => hf f ?_) hs
    · rw [Query.readWithin]
      exact hread
    · have := depth_fragment hm
      omega

end Query

theorem Fragment.ofJson?_toJson (f : Fragment) : Fragment.ofJson? f.toJson = some f := by
  obtain ⟨name, q⟩ := f
  exact Fragment.ofFields?_toJson (Query.readWithin_toJson q (Nat.le_refl _))

/-! ## Stored queries -/

theorem IdSet.ofList_ids (s : IdSet) : IdSet.ofList s.ids = s :=
  IdSet.ext fun _ => IdSet.mem_ofList

/-- **The record of a stored query is read back**, whatever it holds. -/
theorem StoredQuery.ofJson?_toJson (e : StoredQuery) :
    StoredQuery.ofJson? e.toJson = some (StoredQuery.version, e) := by
  have hfragment : Json.optional? Fragment.ofJson? (some (fragmentJson e.fragment)) =
      some e.fragment := by
    cases e.fragment with
    | none => rfl
    | some f =>
      exact @optional?_map _ Fragment.ofJson? Fragment.toJson (some f)
        (fun f _ => f.ofJson?_toJson) Fragment.toJson_ne_null
  have hconsulted : Json.defaulted? [] (Json.listOf? Json.word64?)
      (some (.list (e.consulted.ids.map fun id => Json.int id.toNat))) = some e.consulted.ids :=
    listOf?_map fun id _ => Json.word64?_int id
  have hversion := Json.word32?_int StoredQuery.version
  simp only [StoredQuery.ofJson?, StoredQuery.toJson, slots?, member?_eq, Json.Slot.needed,
    Json.Slot.omitted]
  simp [hfragment, hconsulted, hversion, IdSet.ofList_ids]

end Merchandising
