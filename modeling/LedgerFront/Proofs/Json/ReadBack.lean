import LedgerFront.Json.Parser
import LedgerFront.Json.Printer
import LedgerFront.Proofs.Json.Ordered

/-!
# Reading what was written

A value without numbers is read back from its text, if its objects list their keys in order and no more
containers stand inside each other than the reader takes.

* `string?_quote`: a text in quotes.
* `Plain`, `reads_value`: a value, with whatever follows its text.
* `parse?_text`: a document.
-/

namespace LedgerFront

namespace Json

/-! ## Texts -/

theorem hexDigit?_hexChar {n : Nat} (h : n < 16) : hexDigit? (hexChar n) = some n := by
  revert n
  decide

/-- A character is read back from what stands for it in quotes. -/
theorem stringBody_escape (c : Char) (r : List Char) :
    stringBody (escape c ++ r) = (stringBody r).map fun p => (c.toNat :: p.1, p.2) := by
  unfold escape
  split
  · subst_vars; simp [stringBody, unescape?]
  split
  · subst_vars; simp [stringBody, unescape?]
  split
  · subst_vars; simp [stringBody, unescape?]
  split
  · subst_vars; simp [stringBody, unescape?]
  split
  · subst_vars; simp [stringBody, unescape?]
  split
  · rename_i h; simp [stringBody, unescape?, h]
  split
  · rename_i h; simp [stringBody, unescape?, h]
  split
  · rename_i hlt
    have hhigh : hexDigit? (hexChar (c.toNat / 16)) = some (c.toNat / 16) :=
      hexDigit?_hexChar (by omega)
    have hlow : hexDigit? (hexChar (c.toNat % 16)) = some (c.toNat % 16) := hexDigit?_hexChar (by omega)
    have hzero : hexDigit? '0' = some 0 := rfl
    have hunit : unit? '0' '0' (hexChar (c.toNat / 16)) (hexChar (c.toNat % 16)) = some c.toNat := by
      simp only [unit?, hhigh, hlow, hzero]
      congr 1
      omega
    simp only [List.cons_append, List.nil_append, stringBody, hunit, Option.bind_some]
  · rename_i hquote hslash _ _ _ _ _ hcontrol
    rw [List.singleton_append, stringBody.eq_def]
    split
    · simp_all
    · simp_all
    · simp_all
    · simp_all
    · rename_i heq
      obtain ⟨rfl, rfl⟩ := List.cons.inj heq
      rw [if_neg hcontrol]

theorem stringBody_escapes (l r : List Char) :
    stringBody (l.flatMap escape ++ '"' :: r) = some (l.map Char.toNat, r) := by
  induction l with
  | nil => simp [stringBody]
  | cons c l ih =>
    rw [List.flatMap_cons, List.append_assoc, stringBody_escape, ih]
    rfl

/-- A character is no half of a pair. -/
theorem not_surrogate (c : Char) : isHigh c.toNat = false ∧ isLow c.toNat = false := by
  have hvalid : c.toNat < 0xD800 ∨ 0xDFFF < c.toNat := by
    rcases c.valid with h | ⟨h, -⟩
    · exact .inl h
    · exact .inr h
  simp only [isHigh, isLow, Bool.and_eq_false_iff, decide_eq_false_iff_not]
  omega

theorem joinPairs_toNat (l : List Char) : joinPairs (l.map Char.toNat) = some l := by
  induction l with
  | nil => rfl
  | cons c l ih =>
    obtain ⟨hhigh, hlow⟩ := not_surrogate c
    cases l with
    | nil => simp [joinPairs, hhigh, hlow]
    | cons d l =>
      rw [List.map_cons, List.map_cons] at *
      rw [joinPairs, hhigh, hlow, ih]
      simp

/-- **A text is read back** from its quotes. -/
theorem string?_quote (s : String) (r : List Char) :
    ∃ q, quote s ++ r = '"' :: q ∧ string? q = some (s, r) := by
  refine ⟨s.toList.flatMap escape ++ '"' :: r, by simp [quote], ?_⟩
  rw [string?, stringBody_escapes, Option.bind_some, joinPairs_toNat]
  simp

/-! ## Readings -/

section

variable {α : Type} {x : Json} {s r : List Char}

/-- The start of `s` is read as `a`, and `r` follows. -/
def Reads (read : (s : List Char) → Option (Step α s)) (s : List Char) (a : α) (r : List Char) : Prop :=
  ∃ h, read s = some ⟨a, r, h⟩

/-- What is read is told by its value and by what follows it. -/
theorem reads_of_map_eq {read : (s : List Char) → Option (Step α s)} {a : α}
    (h : (read s).map (fun t => (t.value, t.rest)) = some (a, r)) : Reads read s a r := by
  obtain ⟨⟨b, rest, hshort⟩, hread, hout⟩ := Option.map_eq_some_iff.1 h
  obtain ⟨rfl, rfl⟩ := Prod.mk.inj hout
  exact ⟨hshort, hread⟩

theorem skip_of_not_space {c : Char} (h : isSpace c = false) (r : List Char) :
    skip (c :: r) = c :: r :=
  List.dropWhile_cons_of_neg (by simp [h])

variable {item : (s : List Char) → Option (Step Json s)}

/-- An item is read, and what stands behind it says whether another one follows. -/
theorem items_item {c : Char} (h : Reads item s x (c :: r)) (hc : isSpace c = false) :
    (items item s).map (fun t => (t.value, t.rest)) =
      if c = ',' then (items item r).map fun t => (x :: t.value, t.rest)
      else if c = ']' then some ([x], r) else none := by
  obtain ⟨hshort, hitem⟩ := h
  have hnext : skip (c :: r) = c :: r := skip_of_not_space hc r
  rw [items, hitem]
  simp only
  split
  · rename_i hcomma
    obtain ⟨rfl, rfl⟩ := List.cons.inj (hnext.symm.trans hcomma)
    simp [Function.comp_def]
  · rename_i hbracket
    obtain ⟨rfl, rfl⟩ := List.cons.inj (hnext.symm.trans hbracket)
    rfl
  · rename_i hcomma hbracket
    have hno : c ≠ ',' := fun h => hcomma r (h ▸ hnext)
    have hno' : c ≠ ']' := fun h => hbracket r (h ▸ hnext)
    rw [if_neg hno, if_neg hno']
    rfl

theorem items_last (h : Reads item s x (']' :: r)) : Reads (items item) s [x] r :=
  reads_of_map_eq (by rw [items_item h rfl]; rfl)

theorem items_cons {xs : List Json} (h : Reads item s x (',' :: r)) {r' : List Char}
    (hrest : Reads (items item) r xs r') : Reads (items item) s (x :: xs) r' := by
  obtain ⟨hshort, hitems⟩ := hrest
  refine reads_of_map_eq ?_
  rw [items_item h rfl, if_pos rfl, hitems]
  rfl

/-- A member is read, and what stands behind it says whether another one follows. -/
theorem pairs_member {k : String} {v : List Char} {c : Char} (hs : s = quote k ++ ':' :: v)
    (h : Reads item v x (c :: r)) (hc : isSpace c = false) :
    (pairs item s).map (fun t => (t.value, t.rest)) =
      if c = ',' then (pairs item r).map fun t => ((k, x) :: t.value, t.rest)
      else if c = Char.ofNat 125 then some ([(k, x)], r) else none := by
  obtain ⟨hshort, hitem⟩ := h
  obtain ⟨q, hquote, htext⟩ := string?_quote k (':' :: v)
  obtain rfl : s = '"' :: q := hs.trans hquote
  have hskip : skip ('"' :: q) = '"' :: q := skip_of_not_space rfl q
  have hcolon : skip (':' :: v) = ':' :: v := skip_of_not_space rfl v
  have hnext : skip (c :: r) = c :: r := skip_of_not_space hc r
  rw [pairs]
  split
  case h_2 hno => exact absurd hskip (hno q)
  rename_i hq
  obtain rfl := (List.cons.inj (hskip.symm.trans hq)).2
  split
  case h_1 hnone => simp [htext] at hnone
  rename_i hsome
  obtain ⟨rfl, rfl⟩ := Prod.mk.inj (Option.some.inj (htext.symm.trans hsome))
  split
  case h_2 hno => exact absurd hcolon (hno v)
  rename_i hv
  obtain rfl := (List.cons.inj (hcolon.symm.trans hv)).2
  rw [hitem]
  simp only
  split
  · rename_i hcomma
    obtain ⟨rfl, rfl⟩ := List.cons.inj (hnext.symm.trans hcomma)
    simp [Function.comp_def]
  · rename_i hcomma hother
    obtain ⟨rfl, rfl⟩ := List.cons.inj (hnext.symm.trans hother)
    rw [if_neg hcomma]
    split <;> rfl
  · rename_i hnil
    simp [hnext] at hnil

theorem pairs_last {k : String} {v : List Char} (hs : s = quote k ++ ':' :: v)
    (h : Reads item v x (Char.ofNat 125 :: r)) : Reads (pairs item) s [(k, x)] r :=
  reads_of_map_eq (by rw [pairs_member hs h rfl]; rfl)

theorem pairs_cons {k : String} {v r' : List Char} {m : Members} (hs : s = quote k ++ ':' :: v)
    (h : Reads item v x (',' :: r)) (hrest : Reads (pairs item) r m r') :
    Reads (pairs item) s ((k, x) :: m) r' := by
  obtain ⟨hshort, hpairs⟩ := hrest
  refine reads_of_map_eq ?_
  rw [pairs_member hs h rfl, if_pos rfl, hpairs]
  rfl

/-! ## Values -/

theorem value_scalar {c : Char} {t : List Char} {d : Nat} (hspace : isSpace c = false)
    (hbracket : c ≠ '[') (hbrace : c ≠ Char.ofNat 123) (h : Reads scalar (c :: t) x r) :
    Reads (value d) (c :: t) x r := by
  obtain ⟨hshort, hread⟩ := h
  have hskip : skip (c :: t) = c :: t := skip_of_not_space hspace t
  refine ⟨hshort, ?_⟩
  rw [value]
  split
  · rename_i hnil
    simp [hskip] at hnil
  · rename_i heq
    obtain ⟨rfl, rfl⟩ := List.cons.inj (hskip.symm.trans heq)
    rw [if_neg hbracket, if_neg hbrace, hread]
    rfl

theorem value_null (d : Nat) (r : List Char) : Reads (value d) (null.chars r) null r := by
  refine value_scalar rfl (by decide) (by decide) ⟨by simp only [List.length_cons]; omega, ?_⟩
  simp only [scalar]

theorem value_bool (b : Bool) (d : Nat) (r : List Char) :
    Reads (value d) ((bool b).chars r) (bool b) r := by
  cases b
  all_goals
    refine value_scalar rfl (by decide) (by decide) ⟨by simp only [List.length_cons]; omega, ?_⟩
    simp only [scalar]

theorem value_str (s : String) (d : Nat) (r : List Char) : Reads (value d) ((str s).chars r) (str s) r := by
  obtain ⟨q, hquote, htext⟩ := string?_quote s r
  have hlen := length_string_le htext
  have hchars : (str s).chars r = '"' :: q := hquote
  rw [hchars]
  refine value_scalar rfl (by decide) (by decide) ⟨by simp only [List.length_cons]; omega, ?_⟩
  rw [scalar]
  split
  · rename_i hsome
    obtain ⟨rfl, rfl⟩ := Prod.mk.inj (Option.some.inj (htext.symm.trans hsome))
    rfl
  · rename_i hnone
    simp [htext] at hnone

/-- After an opening bracket an array is read, empty or up to its end. -/
theorem value_bracket {c : Char} {t : List Char} (d : Nat) (hspace : isSpace c = false) :
    (value (d + 1) ('[' :: c :: t)).map (fun u => (u.value, u.rest)) =
      if c = ']' then some (arr [], t)
      else (items (value d) (c :: t)).map fun u => (arr u.value, u.rest) := by
  have hskip : skip ('[' :: c :: t) = '[' :: c :: t := skip_of_not_space rfl _
  have hfirst : skip (c :: t) = c :: t := skip_of_not_space hspace t
  rw [value]
  split
  · rename_i hnil
    simp [hskip] at hnil
  · rename_i heq
    obtain ⟨rfl, rfl⟩ := List.cons.inj (hskip.symm.trans heq)
    rw [if_pos rfl]
    simp only
    split
    · rename_i hclose
      obtain ⟨rfl, rfl⟩ := List.cons.inj (hfirst.symm.trans hclose)
      rfl
    · rename_i hno
      have hopen : c ≠ ']' := fun h => hno t (h ▸ hfirst)
      rw [if_neg hopen]
      simp [Function.comp_def]

/-- After an opening brace an object is read, empty or up to its end. -/
theorem value_brace {c : Char} {t : List Char} (d : Nat) (hspace : isSpace c = false) :
    (value (d + 1) (Char.ofNat 123 :: c :: t)).map (fun u => (u.value, u.rest)) =
      if c = Char.ofNat 125 then some (obj [], t)
      else (pairs (value d) (c :: t)).map fun u => (obj (Members.ofList u.value), u.rest) := by
  have hskip : skip (Char.ofNat 123 :: c :: t) = Char.ofNat 123 :: c :: t := skip_of_not_space rfl _
  have hfirst : skip (c :: t) = c :: t := skip_of_not_space hspace t
  rw [value]
  split
  · rename_i hnil
    simp [hskip] at hnil
  · rename_i heq
    obtain ⟨rfl, rfl⟩ := List.cons.inj (hskip.symm.trans heq)
    rw [if_neg (by decide), if_pos rfl]
    simp only
    split
    · rename_i hnext
      obtain ⟨rfl, rfl⟩ := List.cons.inj (hfirst.symm.trans hnext)
      split
      · rfl
      · simp [Function.comp_def]
    · rename_i hnil
      simp [hfirst] at hnil

theorem value_arr_nil (d : Nat) (r : List Char) : Reads (value (d + 1)) ('[' :: ']' :: r) (arr []) r :=
  reads_of_map_eq (by rw [value_bracket d rfl]; rfl)

theorem value_arr {c : Char} {t : List Char} {d : Nat} {a : List Json} (hspace : isSpace c = false)
    (hc : c ≠ ']') (h : Reads (items (value d)) (c :: t) a r) :
    Reads (value (d + 1)) ('[' :: c :: t) (arr a) r := by
  obtain ⟨hshort, hitems⟩ := h
  refine reads_of_map_eq ?_
  rw [value_bracket d hspace, if_neg hc, hitems]
  rfl

theorem value_obj_nil (d : Nat) (r : List Char) :
    Reads (value (d + 1)) (Char.ofNat 123 :: Char.ofNat 125 :: r) (obj []) r :=
  reads_of_map_eq (by rw [value_brace d rfl]; rfl)

theorem value_obj {c : Char} {t : List Char} {d : Nat} {m : List (String × Json)}
    (hspace : isSpace c = false) (hc : c ≠ Char.ofNat 125) (h : Reads (pairs (value d)) (c :: t) m r) :
    Reads (value (d + 1)) (Char.ofNat 123 :: c :: t) (obj (Members.ofList m)) r := by
  obtain ⟨hshort, hpairs⟩ := h
  refine reads_of_map_eq ?_
  rw [value_brace d hspace, if_neg hc, hpairs]
  rfl

end

/-! ## Documents -/

mutual

/-- No numbers, and members in order. -/
def Plain : Json → Prop
  | null | bool _ | str _ => True
  | num _ => False
  | arr a => PlainItems a
  | obj m => Members.Ordered m ∧ PlainMembers m

/-- No numbers in the items. -/
def PlainItems : List Json → Prop
  | [] => True
  | x :: a => Plain x ∧ PlainItems a

/-- No numbers in the members. -/
def PlainMembers : List (String × Json) → Prop
  | [] => True
  | (_, x) :: m => Plain x ∧ PlainMembers m

end

theorem plainItems_iff {a : List Json} : PlainItems a ↔ ∀ x ∈ a, x.Plain := by
  induction a with
  | nil => simp [PlainItems]
  | cons x a ih => simp [PlainItems, ih]

theorem plainMembers_iff {m : List (String × Json)} : PlainMembers m ↔ ∀ p ∈ m, p.2.Plain := by
  induction m with
  | nil => simp [PlainMembers]
  | cons p m ih =>
    obtain ⟨k, x⟩ := p
    simp only [PlainMembers, ih, List.forall_mem_cons]

theorem depthItems_le_iff {a : List Json} {d : Nat} : depthItems a ≤ d ↔ ∀ x ∈ a, x.depth ≤ d := by
  induction a with
  | nil => simp [depthItems]
  | cons x a ih => simp [depthItems, ih]

theorem depthMembers_le_iff {m : List (String × Json)} {d : Nat} :
    depthMembers m ≤ d ↔ ∀ p ∈ m, p.2.depth ≤ d := by
  induction m with
  | nil => simp [depthMembers]
  | cons p m ih =>
    obtain ⟨k, x⟩ := p
    simp only [depthMembers, max_le_iff, ih, List.forall_mem_cons]

section

variable {α : Type} {f : α → Json} {l : List α} {d : Nat}

/-- An array is plain if the items in it are. -/
theorem plain_arr_map (h : ∀ a ∈ l, (f a).Plain) : (arr (l.map f)).Plain :=
  plainItems_iff.2 (List.forall_mem_map.2 h)

theorem depth_arr_map (h : ∀ a ∈ l, (f a).depth ≤ d) : (arr (l.map f)).depth ≤ d + 1 :=
  Nat.succ_le_succ (depthItems_le_iff.2 (List.forall_mem_map.2 h))

end

/-- An object is plain if the values in it are. -/
theorem plain_ofPairs {pairs : List (String × Json)} (h : ∀ p ∈ pairs, p.2.Plain) :
    (ofPairs pairs).Plain :=
  ⟨Members.ordered_ofList pairs, plainMembers_iff.2 fun p hp => h p (Members.mem_of_mem_ofList hp)⟩

theorem depth_ofPairs {pairs : List (String × Json)} {d : Nat} (h : ∀ p ∈ pairs, p.2.depth ≤ d) :
    (ofPairs pairs).depth ≤ d + 1 :=
  Nat.succ_le_succ (depthMembers_le_iff.2 fun p hp => h p (Members.mem_of_mem_ofList hp))

/-- The text of a value begins with what no list or object ends with. -/
theorem exists_chars {x : Json} (h : x.Plain) (r : List Char) :
    ∃ c t, x.chars r = c :: t ∧ isSpace c = false ∧ c ≠ ']' := by
  cases x with
  | null => exact ⟨_, _, rfl, rfl, by decide⟩
  | bool b => cases b <;> exact ⟨_, _, rfl, rfl, by decide⟩
  | num n => exact absurd h id
  | str s => exact ⟨_, _, rfl, rfl, by decide⟩
  | arr a => exact ⟨_, _, rfl, rfl, by decide⟩
  | obj m => exact ⟨_, _, rfl, rfl, by decide⟩

mutual

/-- **A value is read back**, whatever follows it. -/
theorem reads_value : ∀ (x : Json), x.Plain → ∀ {d : Nat} (r : List Char), x.depth ≤ d →
    Reads (value d) (x.chars r) x r
  | null, _, d, r, _ => value_null d r
  | bool b, _, d, r, _ => value_bool b d r
  | num _, h, _, _, _ => absurd h id
  | str s, _, d, r, _ => value_str s d r
  | arr [], _, d, r, hd => by
    obtain ⟨d, rfl⟩ := Nat.exists_eq_add_of_le' hd
    exact value_arr_nil d r
  | arr (x :: a), h, d, r, hd => by
    obtain ⟨n, rfl⟩ : ∃ n, d = n + 1 := Nat.exists_eq_succ_of_ne_zero (by rintro rfl; simp [depth] at hd)
    have hitems := reads_items (x :: a) (List.cons_ne_nil x a) h r (Nat.le_of_succ_le_succ hd)
    -- the first item does not look like the end of the array
    obtain ⟨c, t, hchars, hspace, hc⟩ := exists_chars h.1 (charsItems false a (']' :: r))
    have hfirst : charsItems true (x :: a) (']' :: r) = c :: t := hchars
    rw [hfirst] at hitems
    have harr : (arr (x :: a)).chars r = '[' :: c :: t := congrArg ('[' :: ·) hfirst
    rw [harr]
    exact value_arr hspace hc hitems
  | obj [], _, d, r, hd => by
    obtain ⟨d, rfl⟩ := Nat.exists_eq_add_of_le' hd
    exact value_obj_nil d r
  | obj ((k, x) :: m), h, d, r, hd => by
    obtain ⟨n, rfl⟩ : ∃ n, d = n + 1 := Nat.exists_eq_succ_of_ne_zero (by rintro rfl; simp [depth] at hd)
    have hpairs := reads_pairs ((k, x) :: m) (List.cons_ne_nil _ m) h.2 r (Nat.le_of_succ_le_succ hd)
    have hobj := value_obj rfl (by decide) hpairs
    -- the reader puts the members into an object anew, which changes nothing as they are in order
    rw [Members.ofList_of_ordered h.1] at hobj
    exact hobj

/-- The items of an array are read up to its end. -/
theorem reads_items : ∀ (a : List Json), a ≠ [] → PlainItems a → ∀ {d : Nat} (r : List Char),
    depthItems a ≤ d → Reads (items (value d)) (charsItems true a (']' :: r)) a r
  | [], hne, _, _, _, _ => absurd rfl hne
  | [x], _, h, _, r, hd => by
    have hx := reads_value x h.1 (']' :: r) (Nat.le_trans (Nat.le_max_left ..) hd)
    exact items_last hx
  | x :: y :: a, _, h, _, r, hd => by
    have hx := reads_value x h.1 (charsItems false (y :: a) (']' :: r))
      (Nat.le_trans (Nat.le_max_left ..) hd)
    have hrest := reads_items (y :: a) (List.cons_ne_nil y a) h.2 r
      (Nat.le_trans (Nat.le_max_right ..) hd)
    exact items_cons hx hrest

/-- The members of an object are read up to its end. -/
theorem reads_pairs : ∀ (m : List (String × Json)), m ≠ [] → PlainMembers m → ∀ {d : Nat}
    (r : List Char), depthMembers m ≤ d →
      Reads (pairs (value d)) (charsMembers true m (Char.ofNat 125 :: r)) m r
  | [], hne, _, _, _, _ => absurd rfl hne
  | [(_, x)], _, h, _, r, hd => by
    have hx := reads_value x h.1 (Char.ofNat 125 :: r) (Nat.le_trans (Nat.le_max_left ..) hd)
    exact pairs_last rfl hx
  | (_, x) :: (j, y) :: m, _, h, _, r, hd => by
    have hx := reads_value x h.1 (charsMembers false ((j, y) :: m) (Char.ofNat 125 :: r))
      (Nat.le_trans (Nat.le_max_left ..) hd)
    have hrest := reads_pairs ((j, y) :: m) (List.cons_ne_nil _ m) h.2 r
      (Nat.le_trans (Nat.le_max_right ..) hd)
    exact pairs_cons rfl hx hrest

end

/-- **A document is read back** from its text. -/
theorem parse?_text {x : Json} (h : x.Plain) (hd : x.depth ≤ 127) : parse? x.text = some x := by
  obtain ⟨hshort, hread⟩ := reads_value x h [] hd
  have hchars : x.text.toList = x.chars [] := by simp [text]
  rw [parse?, hchars, hread]
  rfl

end Json

end LedgerFront
