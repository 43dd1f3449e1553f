import LedgerFront.Proofs.Text.Digits
import LedgerFront.Proofs.Url.Segments
import LedgerFront.Remote.Http

/-!
# Paths of calls

A call within a company goes to a path that names the company, what is done there and, as one segment, the
entity that it is done to. Whatever the text of the entity is, the path leads to no other company and to
nothing else that is done there.

* `Http.Operation`, `Http.place?`: what a call does, and in which company.
* `Http.Operation.shown`: its segments in a URL.
* `Http.addSegments_path`: the URL of a call.
* `Http.shown_inj`: operations that are shown in the same way.
* `Http.entity_in_one_segment`: the paths of calls from outside.
-/

namespace LedgerFront.Http

open Url

/-- What is done to rows of an entity, under the paths that share a first segment. -/
inductive Verb where
  | read
  | lines
  | insert
  | update
  | delete
deriving DecidableEq, Repr

/-- The last segment of the path. -/
def Verb.name : Verb → String
  | read => "read"
  | lines => "lines"
  | insert => "insert"
  | update => "update"
  | delete => "delete"

theorem Verb.name_injective : Function.Injective Verb.name := by
  intro v w
  cases v <;> cases w <;> decide

/-- What is done within a company. -/
inductive Operation where
  | query (entity : String)
  | crud (verb : Verb) (entity : String)
  | invoice
  | journal
deriving DecidableEq, Repr

/-- The company that a call is about, and what it does there. -/
def place? : Call → Option (Int × Operation)
  | .login .. | .companies => none
  | .query company entity _ => some (company, .query entity)
  | .read company entity _ => some (company, .crud .read entity)
  | .lines company entity _ => some (company, .crud .lines entity)
  | .insert company entity _ => some (company, .crud .insert entity)
  | .update company entity _ => some (company, .crud .update entity)
  | .delete company entity _ => some (company, .crud .delete entity)
  | .invoice company _ => some (company, .invoice)
  | .journal company _ => some (company, .journal)

namespace Operation

/-- The segments behind the number of the company. -/
def segments : Operation → List String
  | query entity => ["query", entity]
  | crud verb entity => ["crud", entity, verb.name]
  | invoice => ["invoice"]
  | journal => ["posting", "journal"]

/-- The entity has a plain text, if there is one. -/
def Plain : Operation → Prop
  | query entity | crud _ entity => Url.Plain entity
  | invoice | journal => True

/-- The same is done, to texts of which a URL keeps the same. -/
def Like : Operation → Operation → Prop
  | query a, query b => kept a = kept b
  | crud v a, crud w b => v = w ∧ kept a = kept b
  | invoice, invoice | journal, journal => True
  | _, _ => False

/-- The segments of an operation in full: the fixed ones as they are, and the text of the entity escaped
in one without a slash. -/
def Spelled : Operation → List String → Prop
  | query entity, path => ∃ s, path = ["query", s] ∧ '/' ∉ s.toList ∧ unescape s = some entity
  | crud verb entity, path =>
    ∃ s, path = ["crud", s, verb.name] ∧ '/' ∉ s.toList ∧ unescape s = some entity
  | invoice, path => path = ["invoice"]
  | journal, path => path = ["posting", "journal"]

/-- A first segment and what a URL keeps of the text of an entity behind it. An entity may leave no segment,
or take the first one away and leave an empty one. -/
def Follows (first entity : String) (path : List String) : Prop :=
  match kept entity with
  | .nothing => path = [first]
  | .above => path = [""]
  | .text chars => ∃ s, path = [first, s] ∧ '/' ∉ s.toList ∧ unescape s = some (String.ofList chars)

/-- The segments of an operation, whatever the text of the entity is. -/
def Reduced : Operation → List String → Prop
  | query entity, path => Follows "query" entity path
  | crud verb entity, path => ∃ front, Follows "crud" entity front ∧ path = front ++ [verb.name]
  | invoice, path => path = ["invoice"]
  | journal, path => path = ["posting", "journal"]

/-- A first segment and the segments behind it that a text leaves. -/
def front (web : Bool) (first entity : String) : List String :=
  match kept entity with
  | .nothing => [first]
  | .above => [""]
  | .text chars => [first, escape (segmentSet web) chars]

/-- The segments of an operation as they are kept in a URL. -/
def shown (web : Bool) : Operation → List String
  | query entity => front web "query" entity
  | crud verb entity => front web "crud" entity ++ [verb.name]
  | invoice => ["invoice"]
  | journal => ["posting", "journal"]

end Operation

variable {c c' : Call} {company company' : Int} {op op' : Operation}

theorem path_of_place? (h : place? c = some (company, op)) :
    path c = "companies" :: Text.intText company :: op.segments := by
  cases c <;> simp only [place?, Option.some.injEq, Prod.mk.injEq, reduceCtorEq] at h <;>
    obtain ⟨rfl, rfl⟩ := h <;> rfl

/-! ## Segments that stay as they are -/

theorem fixed_word (web : Bool) {segment : String}
    (h : segment ∈ ["companies", "query", "crud", "read", "lines", "insert", "update", "delete",
      "invoice", "posting", "journal"]) : Fixed web segment := by
  have hfree : ∀ s ∈ ["companies", "query", "crud", "read", "lines", "insert", "update", "delete",
      "invoice", "posting", "journal"], s.toList.all isFree = true := by decide
  exact fixed_of_free web (List.all_eq_true.1 (hfree segment h))

theorem fixed_verb (web : Bool) (verb : Verb) : Fixed web verb.name :=
  fixed_word web (by cases verb <;> decide)

theorem fixed_intText (web : Bool) (i : Int) : Fixed web (Text.intText i) := by
  have hdigit : ∀ c, Text.isDigit c = true → isFree c = true := by
    intro c hc
    have hcodes : ∀ n < 58, 48 ≤ n → isFree (Char.ofNat n) = true := by decide
    have hrange : 48 ≤ c.toNat ∧ c.toNat ≤ 57 := by simpa [Text.isDigit] using hc
    have hfree := hcodes c.toNat (by omega) hrange.1
    rwa [Char.ofNat_toNat] at hfree
  have hdigits : ∀ c ∈ Text.digits i.natAbs, isFree c = true := fun c hc =>
    hdigit c (List.all_eq_true.1 (Text.digits_all i.natAbs) c hc)
  refine fixed_of_free web fun c hc => ?_
  unfold Text.intText Text.intChars at hc
  rw [String.toList_ofList] at hc
  split at hc
  · rcases List.mem_cons.1 hc with rfl | hc
    · decide
    · exact hdigits c hc
  · exact hdigits c hc

/-! ## The URL of a call -/

/-- A first segment and a text behind it, added to a path. -/
theorem foldl_front {web : Bool} {path : List String} (hpath : 1 < path.length) {first : String}
    (hfirst : Fixed web first) (entity : String) :
    [first, entity].foldl (addSegment web) path = path ++ Operation.front web first entity := by
  -- the first segment is there when the text comes, so two dots take away no more than that
  have hcleared : cleared (path ++ [first]) = path ++ [first] := cleared_of_one_lt (by simp; omega)
  rw [List.foldl_cons, List.foldl_cons, List.foldl_nil, addSegment_fixed hfirst, cleared_of_one_lt hpath,
    addSegment_eq, hcleared]
  unfold Operation.front
  cases kept entity with
  | nothing => rfl
  | above => exact congrArg (· ++ [""]) List.dropLast_concat
  | text chars => exact List.append_assoc ..

theorem foldl_segments {web : Bool} {path : List String} (hpath : 1 < path.length) (op : Operation) :
    op.segments.foldl (addSegment web) path = path ++ op.shown web := by
  cases op with
  | query entity => exact foldl_front hpath (fixed_word web (by decide)) entity
  | crud verb entity =>
    have hsplit : (Operation.crud verb entity).segments = ["crud", entity] ++ [verb.name] := rfl
    have hlength : 1 < (path ++ Operation.front web "crud" entity).length := by
      rw [List.length_append]
      omega
    rw [hsplit, List.foldl_append, foldl_front hpath (fixed_word web (by decide)), List.foldl_cons,
      List.foldl_nil, addSegment_fixed (fixed_verb web verb), cleared_of_one_lt hlength, List.append_assoc]
    rfl
  | invoice =>
    rw [Operation.segments, List.foldl_cons, List.foldl_nil, addSegment_fixed (fixed_word web (by decide)),
      cleared_of_one_lt hpath]
    rfl
  | journal =>
    have hlength : 1 < (path ++ ["posting"]).length := by
      rw [List.length_append]
      omega
    rw [Operation.segments, List.foldl_cons, List.foldl_cons, List.foldl_nil,
      addSegment_fixed (fixed_word web (by decide)) path, cleared_of_one_lt hpath,
      addSegment_fixed (fixed_word web (by decide)), cleared_of_one_lt hlength, List.append_assoc]
    rfl

/-- **The URL of a call within a company.** -/
theorem addSegments_path {base : Url} {start : List String} (hbase : base.path = .segments start)
    (h : place? c = some (company, op)) :
    base.addSegments (path c) =
      { base with
        path := .segments
          (stem start ++ "companies" :: Text.intText company :: op.shown (isSpecial base.scheme)) } := by
  have hid : 1 < (stem start ++ ["companies"] ++ [Text.intText company]).length := by
    rw [List.length_append, List.length_append]
    simp
  have hname : cleared (stem start ++ ["companies"]) = stem start ++ ["companies"] :=
    cleared_concat (by decide) _
  have hcompanies : Fixed (isSpecial base.scheme) "companies" := fixed_word _ (by decide)
  unfold addSegments
  rw [hbase]
  dsimp only
  rw [path_of_place? h, List.foldl_cons, List.foldl_cons, addSegment_fixed hcompanies,
    cleared_dropEmptyLast, addSegment_fixed (fixed_intText _ company), hname, foldl_segments hid,
    List.append_assoc, List.append_assoc]
  rfl

/-- **The request of a call within a company** is sent in a session with an identifier that a header can
hold. -/
theorem request_eq_ok {base : Url} {session : Option String} {r : Request}
    (h : place? c = some (company, op)) : request base session c = .ok r ↔
      ∃ id, session = some id ∧ isHeaderText id = true ∧
        r = ⟨method c, base.addSegments (path c), some id, body c⟩ := by
  have hrequest : request base session c = match session with
      | none => .error .notLoggedIn
      | some id =>
        if isHeaderText id then .ok ⟨method c, base.addSegments (path c), some id, body c⟩
        else .error (.connection "builder error") := by
    cases c with
    | login | companies => simp [place?] at h
    | _ => cases session <;> rfl
  rw [hrequest]
  cases session with
  | none => simp
  | some id =>
    dsimp only
    split
    · rename_i hid
      refine ⟨fun hr => ⟨id, rfl, hid, (Except.ok.inj hr).symm⟩, ?_⟩
      rintro ⟨_, hsame, -, rfl⟩
      obtain rfl := Option.some.inj hsame
      rfl
    · rename_i hid
      refine ⟨fun hr => by simp at hr, ?_⟩
      rintro ⟨_, hsame, htext, -⟩
      obtain rfl := Option.some.inj hsame
      exact absurd htext hid

/-! ## Operations that are shown alike -/

theorem front_inj {web : Bool} {first a b : String} (hfirst : first ≠ "") :
    Operation.front web first a = Operation.front web first b ↔ kept a = kept b := by
  have hescape : ∀ s t, escape (segmentSet web) s = escape (segmentSet web) t ↔ s = t := fun s t =>
    (escape_injective (reversible_segmentSet web)).eq_iff
  unfold Operation.front
  cases kept a <;> cases kept b <;> simp [hescape, hfirst, hfirst.symm]

theorem front_cases (web : Bool) (first entity : String) :
    Operation.front web first entity = [first] ∨ Operation.front web first entity = [""] ∨
      ∃ s, Operation.front web first entity = [first, s] := by
  unfold Operation.front
  cases kept entity with
  | nothing => exact .inl rfl
  | above => exact .inr (.inl rfl)
  | text chars => exact .inr (.inr ⟨_, rfl⟩)

theorem query_ne_crud (web : Bool) (a b : String) (verb : Verb) :
    Operation.front web "query" a ≠ Operation.front web "crud" b ++ [verb.name] := by
  rcases front_cases web "query" a with ha | ha | ⟨s, ha⟩ <;>
    rcases front_cases web "crud" b with hb | hb | ⟨t, hb⟩ <;> simp [ha, hb]

/-- The segments without an entity. -/
theorem query_ne_words (web : Bool) (entity : String) :
    Operation.front web "query" entity ≠ ["invoice"] ∧
      Operation.front web "query" entity ≠ ["posting", "journal"] := by
  rcases front_cases web "query" entity with h | h | ⟨s, h⟩ <;> simp [h]

theorem crud_ne_words (web : Bool) (entity : String) (verb : Verb) :
    Operation.front web "crud" entity ++ [verb.name] ≠ ["invoice"] ∧
      Operation.front web "crud" entity ++ [verb.name] ≠ ["posting", "journal"] := by
  rcases front_cases web "crud" entity with h | h | ⟨s, h⟩ <;> simp [h]

/-- **Operations that are shown alike** do the same, to texts of which the same is kept. -/
theorem shown_inj {web : Bool} : op.shown web = op'.shown web ↔ op.Like op' := by
  cases op with
  | query a =>
    cases op' with
    | query b => exact front_inj (by decide)
    | crud w b => exact iff_of_false (query_ne_crud web a b w) id
    | invoice => exact iff_of_false (query_ne_words web a).1 id
    | journal => exact iff_of_false (query_ne_words web a).2 id
  | crud v a =>
    cases op' with
    | query b => exact iff_of_false (query_ne_crud web b a v).symm id
    | crud w b =>
      constructor
      · intro h
        obtain ⟨hfront, hlast⟩ := List.append_inj' h rfl
        exact ⟨Verb.name_injective (List.head_eq_of_cons_eq hlast), (front_inj (by decide)).1 hfront⟩
      · rintro ⟨rfl, h⟩
        exact congrArg (· ++ [v.name]) ((front_inj (by decide)).2 h)
    | invoice => exact iff_of_false (crud_ne_words web a v).1 id
    | journal => exact iff_of_false (crud_ne_words web a v).2 id
  | invoice =>
    cases op' with
    | query b => exact iff_of_false (query_ne_words web b).1.symm id
    | crud w b => exact iff_of_false (crud_ne_words web b w).1.symm id
    | invoice => exact iff_of_true rfl trivial
    | journal => exact iff_of_false (by simp [Operation.shown]) id
  | journal =>
    cases op' with
    | query b => exact iff_of_false (query_ne_words web b).2.symm id
    | crud w b => exact iff_of_false (crud_ne_words web b w).2.symm id
    | invoice => exact iff_of_false (by simp [Operation.shown]) id
    | journal => exact iff_of_true rfl trivial

/-! ## Segments without slashes -/

theorem slash_notMem_front (web : Bool) {first : String} (hfirst : '/' ∉ first.toList) (entity : String) :
    ∀ s ∈ Operation.front web first entity, '/' ∉ s.toList := by
  have hescape : ∀ chars, '/' ∉ (escape (segmentSet web) chars).toList :=
    slash_notMem_escape (segmentSet_slash web)
  unfold Operation.front
  cases kept entity with
  | nothing => simpa using hfirst
  | above => simp
  | text chars => simpa using ⟨hfirst, hescape chars⟩

theorem slash_notMem_shown (web : Bool) (op : Operation) : ∀ s ∈ op.shown web, '/' ∉ s.toList := by
  cases op with
  | query entity => exact slash_notMem_front web (by decide) entity
  | crud verb entity =>
    intro s hs
    rcases List.mem_append.1 hs with hs | hs
    · exact slash_notMem_front web (by decide) entity s hs
    · rw [List.mem_singleton.1 hs]
      cases verb <;> decide
  | invoice | journal => simp [Operation.shown]

theorem slash_notMem_intText (i : Int) : '/' ∉ (Text.intText i).toList := by
  have hfixed := (fixed_intText true i).2
  rw [← hfixed]
  exact slash_notMem_escape (segmentSet_slash true) _

theorem pathText_segments {u : Url} {list : List String} (h : u.path = .segments list) :
    u.pathText.toList = joined list := by
  unfold pathText
  rw [h]
  exact toList_join list

/-! ## Plain texts -/

theorem like_iff_of_plain (h : op.Plain) (h' : op'.Plain) : op.Like op' ↔ op = op' := by
  have hkept : ∀ {a b : String}, Url.Plain a → Url.Plain b → (kept a = kept b ↔ a = b) := by
    intro a b ha hb
    rw [kept_of_plain ha, kept_of_plain hb, Kept.text.injEq]
    exact String.toList_inj
  cases op <;> cases op' <;> simp [Operation.Like]
  · exact hkept h h'
  · exact fun _ => hkept h h'

theorem reduced_shown (web : Bool) (op : Operation) : op.Reduced (op.shown web) := by
  have hfront : ∀ first entity, Operation.Follows first entity (Operation.front web first entity) := by
    intro first entity
    unfold Operation.Follows Operation.front
    cases kept entity with
    | nothing => rfl
    | above => rfl
    | text chars =>
      exact ⟨_, rfl, slash_notMem_escape (segmentSet_slash web) _,
        unescape_escape (reversible_segmentSet web) _⟩
  cases op with
  | query entity => exact hfront "query" entity
  | crud verb entity => exact ⟨_, hfront "crud" entity, rfl⟩
  | invoice | journal => rfl

theorem follows_of_plain {first entity : String} {path : List String} (h : Url.Plain entity)
    (hf : Operation.Follows first entity path) :
    ∃ s, path = [first, s] ∧ '/' ∉ s.toList ∧ unescape s = some entity := by
  unfold Operation.Follows at hf
  rw [kept_of_plain h] at hf
  dsimp only at hf
  rwa [String.ofList_toList] at hf

/-- **A plain text is spelled in full.** -/
theorem spelled_of_plain {segments : List String} (h : op.Plain) (hred : op.Reduced segments) :
    op.Spelled segments := by
  cases op with
  | query entity => exact follows_of_plain h hred
  | crud verb entity =>
    obtain ⟨front, hfront, rfl⟩ := hred
    obtain ⟨s, rfl, hslash, hread⟩ := follows_of_plain h hfront
    exact ⟨s, rfl, hslash, hread⟩
  | invoice | journal => exact hred

/-! ## From outside -/

theorem path_of_gateway {text : String} {base : Url} (h : gateway text = .ok base) :
    ∃ start, base.path = .segments start := by
  unfold gateway at h
  split at h
  · simp at h
  · split at h
    · simp at h
    · rename_i url _ hbare
      obtain rfl := Except.ok.inj h
      cases hpath : url.path with
      | bare t => simp [isBare, hpath] at hbare
      | segments start => exact ⟨start, rfl⟩

/-- **Paths that are the same** lead to the same company and to what is shown alike there. -/
theorem pathText_eq_iff {base : Url} {start : List String} (hbase : base.path = .segments start)
    (h : place? c = some (company, op)) (h' : place? c' = some (company', op')) :
    (base.addSegments (path c)).pathText = (base.addSegments (path c')).pathText ↔
      company = company' ∧ op.Like op' := by
  have hslash : ∀ (i : Int) (o : Operation), ∀ s ∈ "companies" :: Text.intText i ::
      o.shown (isSpecial base.scheme), '/' ∉ s.toList := by
    intro i o s hs
    rcases List.mem_cons.1 hs with rfl | hs
    · decide
    rcases List.mem_cons.1 hs with rfl | hs
    · exact slash_notMem_intText i
    · exact slash_notMem_shown _ o s hs
  -- both paths start with the same stem, and slashes in it do not matter
  rw [← String.toList_inj, addSegments_path hbase h, addSegments_path hbase h', pathText_segments rfl,
    pathText_segments rfl, joined_append, joined_append, List.append_cancel_left_eq, ← shown_inj]
  constructor
  · intro hjoined
    have hlists := joined_injective (hslash company op) (hslash company' op') hjoined
    obtain ⟨hid, hshown⟩ := List.cons.inj (List.cons.inj hlists).2
    exact ⟨Text.intText_injective hid, hshown⟩
  · rintro ⟨rfl, hshown⟩
    rw [hshown]

/-- **The entity stays in its segment.** A call within a company goes to the base path, without an empty
segment at its end, followed by the company and what is done there; a plain text of an entity has one
segment, from which it is read back. Two calls go to the same path exactly when they do the same in one
company, to texts of which a URL keeps the same; these are the same texts if they are plain. -/
theorem entity_in_one_segment {text : String} {base : Url} (hbase : gateway text = .ok base) :
    ∃ start, base.path = .segments start ∧
      (∀ c company op id, place? c = some (company, op) → isHeaderText id = true →
        ∃ r segments, request base (some id) c = .ok r ∧ r.session = some id ∧
          r.url = { base with
            path := .segments (stem start ++ "companies" :: Text.intText company :: segments) } ∧
          op.Reduced segments ∧ (op.Plain → op.Spelled segments)) ∧
      ∀ c c' company company' op op' session session' r r',
        place? c = some (company, op) → place? c' = some (company', op') →
        request base session c = .ok r → request base session' c' = .ok r' →
          (r.url.pathText = r'.url.pathText ↔ company = company' ∧ op.Like op') ∧
          (op.Plain → op'.Plain →
            (r.url.pathText = r'.url.pathText ↔ (company, op) = (company', op'))) := by
  obtain ⟨start, hstart⟩ := path_of_gateway hbase
  refine ⟨start, hstart, ?_, ?_⟩
  · intro c company op id hc hid
    have hrequest : request base (some id) c = .ok _ := (request_eq_ok hc).2 ⟨id, rfl, hid, rfl⟩
    have hred := reduced_shown (isSpecial base.scheme) op
    exact ⟨_, _, hrequest, rfl, addSegments_path hstart hc, hred, fun h => spelled_of_plain h hred⟩
  · intro c c' company company' op op' session session' r r' hc hc' hr hr'
    obtain ⟨_, -, -, rfl⟩ := (request_eq_ok hc).1 hr
    obtain ⟨_, -, -, rfl⟩ := (request_eq_ok hc').1 hr'
    have hpaths := pathText_eq_iff hstart hc hc'
    refine ⟨hpaths, fun hplain hplain' => ?_⟩
    rw [hpaths, like_iff_of_plain hplain hplain', Prod.mk.injEq]

/-- An entity that looks like a path to something else. -/
theorem entity_in_one_segment_slash :
    let base : Url := ⟨"http", some "127.0.0.1:8080", .segments ["api", ""], none, none⟩
    let entity := "../../8/crud/Debtor/delete?"
    let c : Call := .insert 7 entity []
    let c' : Call := .delete 8 "Debtor" []
    gateway "http://127.0.0.1:8080/api/" = .ok base ∧
      ∃ r r' segment, request base (some "s-1") c = .ok r ∧ request base (some "s-1") c' = .ok r' ∧
        r.url.path = .segments ["api", "companies", "7", "crud", segment, "insert"] ∧
        '/' ∉ segment.toList ∧ unescape segment = some entity ∧ r.url.pathText ≠ r'.url.pathText := by
  intro base entity c c'
  have hbase : gateway "http://127.0.0.1:8080/api/" = .ok base := by decide +kernel
  have hplain : (Operation.crud .insert entity).Plain := by
    unfold Operation.Plain
    decide +kernel
  have hplain' : (Operation.crud .delete "Debtor").Plain := by
    unfold Operation.Plain
    decide +kernel
  obtain ⟨start, hstart, hone, htwo⟩ := entity_in_one_segment hbase
  obtain rfl : ["api", ""] = start := UrlPath.segments.inj hstart
  obtain ⟨r, segments, hr, -, hurl, -, hspelled⟩ := hone c 7 _ "s-1" rfl (by decide)
  obtain ⟨r', _, hr', -⟩ := hone c' 8 _ "s-1" rfl (by decide)
  obtain ⟨segment, rfl, hslash, hread⟩ := hspelled hplain
  have hdiffer := (htwo c c' 7 8 _ _ _ _ r r' rfl rfl hr hr').2 hplain hplain'
  refine ⟨hbase, r, r', segment, hr, hr', ?_, hslash, hread, fun h => ?_⟩
  · have hstem : stem ["api", ""] = ["api"] := by decide
    have hid : Text.intText 7 = "7" := by decide +kernel
    rw [hurl, hstem, hid]
    rfl
  · simpa using hdiffer.1 h

/-- A tab is passed over. Two dots are dropped by themselves, and behind a tab they take the segment before
them away. Of a base path of two empty segments none is left. -/
theorem not_entity_in_one_segment :
    let sent (text : String) (c : Call) : Except RemoteError String := do
      let base ← gateway text
      let r ← request base (some "s-1") c
      pure r.url.pathText
    sent "http://127.0.0.1:8080" (.query 7 "a\tb" []) = .ok "/companies/7/query/ab" ∧
      sent "http://127.0.0.1:8080" (.query 7 "ab" []) = .ok "/companies/7/query/ab" ∧
      unescape "ab" ≠ some "a\tb" ∧
      sent "http://127.0.0.1:8080" (.read 7 ".." .null) = .ok "/companies/7/crud/read" ∧
      sent "http://127.0.0.1:8080" (.read 7 "\t.." .null) = .ok "/companies/7//read" ∧
      sent "http://127.0.0.1:8080//" (.query 7 "Debtor" []) = .ok "/companies/7/query/Debtor" := by
  decide +kernel

end LedgerFront.Http
