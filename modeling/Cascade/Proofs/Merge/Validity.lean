import Cascade.Proofs.Merge.Table
import Cascade.Proofs.Text.Validity

/-!
# What is made of a valid source

A scan cuts its source at braces, semicolons, comment marks and white space, and the
merging cuts the bodies of rules at semicolons and colons. All of these are whole
characters, so every text that is cut out of a valid source is valid, and so is what
is put together from these texts.
-/

namespace Cascade

open Lexeme Scan Utf8

def Item.texts : Item → List Bytes
  | .comment t => [t]
  | .atRule header body => [header, body]
  | .rule selector body => [selector, body]
  | .other t => [t]
  | .blank => []

/-! ## Comments and code -/

namespace Lexeme

/-- A comment that ends with its closer ends with a slash. -/
theorem exists_slash_of_closerEnd {s : Bytes} (h : closerEnd s = some s.length) :
    ∃ init, s = init ++ [slash] := by
  fun_induction closerEnd s with
  | case1 a b s hab =>
      simp only [Bool.and_eq_true, beq_iff_eq] at hab
      cases s with
      | nil => exact ⟨[a], by rw [hab.2]; rfl⟩
      | cons x s => simp at h
  | case2 a b s hab ih =>
      obtain ⟨n, hn, hlength⟩ := Option.map_eq_some_iff.mp h
      obtain ⟨init, hinit⟩ := ih (by rw [hn]; exact congrArg some (Nat.succ.inj hlength))
      exact ⟨a :: init, by rw [hinit]; rfl⟩
  | case3 => cases h

theorem isValid_comment_append_iff {inner rest : Bytes} (h : closerEnd inner = some inner.length) :
    isValid (slash :: star :: inner ++ rest) = true ↔
      isValid (slash :: star :: inner) = true ∧ isValid rest = true := by
  obtain ⟨init, rfl⟩ := exists_slash_of_closerEnd h
  have hopen : slash :: star :: (init ++ [slash]) = (slash :: star :: init) ++ [slash] := rfl
  rw [hopen, List.append_assoc, List.singleton_append, isValid_ascii_iff (by decide),
    isValid_ascii_iff (by decide)]
  simp

theorem isValid_code_iff {pre post : List Lexeme} {b : UInt8} (hb : b < 0x80) :
    isValid (source (pre ++ .code b :: post)) = true ↔
      isValid (source pre) = true ∧ isValid (source post) = true := by
  rw [source_append, source_cons]
  exact isValid_ascii_iff hb

end Lexeme

/-- Where a comment is taken out, the text in front of it ends with a whole character. -/
theorem isValid_stripComments {s : Bytes} (hs : isValid s = true) :
    isValid (stripComments s) = true := by
  -- single code bytes are not valid, so the induction carries those in front along
  have hall : ∀ {ls : List Lexeme}, Lexed ls → ∀ front : Bytes,
      isValid (front ++ source ls) = true → isValid (front ++ ls.flatMap stripped) = true := by
    intro ls hls
    induction hls with
    | nil => exact fun front h => h
    | @code b ls _ _ ih =>
        intro front h
        have hrest := ih (front ++ [b])
        simp only [List.append_assoc, List.singleton_append] at hrest
        exact hrest h
    | @comment inner ls hclose _ ih =>
        intro front h
        rw [source_cons, bytes, List.cons_append, isValid_ascii_iff (by decide)] at h
        have hcomment : isValid (slash :: star :: inner ++ source ls) = true :=
          (isValid_ascii_cons_iff (by decide)).mpr h.2
        have hrest := ih [] ((isValid_comment_append_iff hclose).mp hcomment).2
        exact isValid_append h.1 hrest
    | @openComment inner _ => exact fun front h => h
  have hstrip := hall (lexed_ofBytes s) []
  rw [List.nil_append, source_ofBytes] at hstrip
  exact hstrip hs

/-! ## The items of a scan -/

/-- A lap leaves a valid rest, and its item has valid texts. -/
theorem Scan.Lap.isValid {o : Nat} {taken rest : List Lexeme} {es : List Event}
    (h : Lap o taken rest es) (hlex : Lexed (taken ++ rest))
    (hs : Utf8.isValid (source (taken ++ rest)) = true) :
    (∀ it ∈ itemsOf es, ∀ t ∈ it.texts, Utf8.isValid t = true) ∧
      Utf8.isValid (source rest) = true := by
  cases h with
  | @blank y _ hy hsymbols =>
      have hbytes : source (y.bytes.map .code ++ rest) = y.bytes ++ source rest := by
        simp [source, List.flatMap_map, bytes]
      rw [hbytes, isValid_iff, hsymbols] at hs
      refine ⟨by simp [itemsOf], isValid_iff.mpr ?_⟩
      exact fun z hz => hs z (List.mem_cons_of_mem _ hz)
  | comment =>
      cases hlex with
      | comment hclose _ =>
          obtain ⟨ht, hrest⟩ := (isValid_comment_append_iff hclose).mp hs
          exact ⟨by simpa [itemsOf, Event.token?, Item.texts] using ht, hrest⟩
  | openComment => exact ⟨by simpa [itemsOf, Event.token?, Item.texts, bytes] using hs, rfl⟩
  | @dropped pre _ _ =>
      rw [List.cons_append, List.append_assoc, List.singleton_append,
        ← List.cons_append, isValid_code_iff (by decide)] at hs
      exact ⟨by simp [itemsOf, Event.token?], hs.2⟩
  | openDropped _ => exact ⟨by simp [itemsOf, Event.token?], rfl⟩
  | @atRule pre body _ _ _ =>
      rw [show .code 0x40 :: (pre ++ .code openBrace :: (body ++ [.code closeBrace])) ++ rest =
          (.code 0x40 :: pre) ++ .code openBrace :: (body ++ .code closeBrace :: rest) by simp,
        isValid_code_iff (by decide), isValid_code_iff (by decide), source_cons] at hs
      have hheader := Bytes.isValid_trim ((isValid_ascii_cons_iff (by decide)).mp hs.1)
      exact ⟨by simpa [itemsOf, Event.token?, Item.texts] using ⟨hheader, hs.2.1⟩, hs.2.2⟩
  | @openAtRule pre body _ _ =>
      rw [List.append_nil, ← List.cons_append, isValid_code_iff (by decide), source_cons] at hs
      have hheader := Bytes.isValid_trim ((isValid_ascii_cons_iff (by decide)).mp hs.1)
      exact ⟨by simpa [itemsOf, Event.token?, Item.texts] using ⟨hheader, hs.2⟩, rfl⟩
  | @rule pre body _ _ _ _ =>
      rw [show pre ++ .code openBrace :: (body ++ [.code closeBrace]) ++ rest =
          pre ++ .code openBrace :: (body ++ .code closeBrace :: rest) by simp,
        isValid_code_iff (by decide), isValid_code_iff (by decide)] at hs
      have hselector := Bytes.isValid_trim hs.1
      exact ⟨by simpa [itemsOf, Event.token?, Item.texts] using ⟨hselector, hs.2.1⟩, hs.2.2⟩
  | @openRule pre body _ _ _ =>
      rw [List.append_nil, isValid_code_iff (by decide)] at hs
      have hselector := Bytes.isValid_trim hs.1
      exact ⟨by simpa [itemsOf, Event.token?, Item.texts] using ⟨hselector, hs.2⟩, rfl⟩
  | other _ _ => exact ⟨by simpa [itemsOf, Event.token?, Item.texts] using hs, rfl⟩

theorem isValid_items {s : Bytes} (hs : isValid s = true) :
    ∀ it ∈ (Sheet.scan s).items, ∀ t ∈ it.texts, isValid t = true := by
  rw [Sheet.items_scan]
  refine items_induction
    (motive := fun ls its => isValid (source ls) = true →
      ∀ it ∈ its, ∀ t ∈ it.texts, isValid t = true)
    (fun _ it hit => absurd hit List.not_mem_nil)
    (fun taken rest es hlex hlap ih hsource it hit => ?_) (lexed_ofBytes s) (by rwa [source_ofBytes])
  obtain ⟨hitems, hrest⟩ := hlap.isValid hlex hsource
  rcases List.mem_append.mp hit with hit | hit
  · exact hitems it hit
  · exact ih hrest it hit

/-! ## Declarations -/

def Declaration.IsValid (d : Declaration) : Prop :=
  isValid d.property = true ∧ isValid d.value = true

theorem isValid_segments {s : Bytes} {sep : UInt8} (hsep : sep < 0x80) (hs : isValid s = true) :
    ∀ segment ∈ s.splitOn sep, isValid segment = true := by
  revert hs
  refine Bytes.splitOn_induction sep
    (motive := fun s segments => isValid s = true → ∀ t ∈ segments, isValid t = true)
    (fun s _ hs t ht => ?_) (fun a s _ ih hs t ht => ?_) s
  · rwa [List.mem_singleton.mp ht]
  · rw [isValid_ascii_iff hsep] at hs
    rcases List.mem_cons.mp ht with rfl | ht
    · exact hs.1
    · exact ih hs.2 t ht

namespace Declaration

theorem isValid_ofSegment? {segment : Bytes} {d : Declaration} (hs : isValid segment = true)
    (hd : ofSegment? segment = some d) : d.IsValid := by
  obtain ⟨⟨a, b⟩, hcut, rfl⟩ := Option.map_eq_some_iff.mp hd
  obtain ⟨hsplit, _⟩ := Bytes.cut_eq_some hcut
  have htrim := Bytes.isValid_trim hs
  rw [hsplit, isValid_ascii_iff (by decide)] at htrim
  exact ⟨Bytes.isValid_trim htrim.1, Bytes.isValid_trim htrim.2⟩

theorem isValid_parse {body : Bytes} (hbody : isValid body = true) :
    ∀ d ∈ parse body, d.IsValid := by
  intro d hd
  obtain ⟨segment, hsegment, hread⟩ := List.mem_filterMap.mp hd
  refine isValid_ofSegment? ?_ hread
  exact isValid_segments (by decide) (isValid_stripComments hbody) segment hsegment

theorem isValid_format {ds : List Declaration} (hds : ∀ d ∈ ds, d.IsValid) :
    isValid (format ds) = true := by
  refine isValid_append (isValid_flatMap fun d hd => ?_) (by decide)
  obtain ⟨hproperty, hvalue⟩ := hds d hd
  rw [line]
  refine isValid_append (isValid_append (isValid_append (isValid_append ?_ hproperty) ?_) hvalue) ?_
  all_goals decide

end Declaration

theorem isValid_declared {its : List Item} (hits : ∀ it ∈ its, ∀ t ∈ it.texts, isValid t = true)
    (k : Bytes) : ∀ d ∈ (Item.bodies k its).flatMap Declaration.parse, d.IsValid := by
  intro d hd
  obtain ⟨body, hbody, hparse⟩ := List.mem_flatMap.mp hd
  obtain ⟨selector, hrule, _⟩ := Item.mem_bodies.mp hbody
  refine Declaration.isValid_parse ?_ d hparse
  exact hits _ hrule body (by simp [Item.texts])

/-! ## Tables and output -/

structure Entry.IsValid (e : Entry) : Prop where
  selector : isValid e.selector = true
  order : ∀ p ∈ e.order, isValid p = true
  values : ∀ pair ∈ e.values.items, isValid pair.1 = true ∧ isValid pair.2 = true

/-- Items with valid texts make a table of valid entries. -/
theorem isValid_ofItems {its : List Item} (hits : ∀ it ∈ its, ∀ t ∈ it.texts, isValid t = true)
    {k : Bytes} {e : Entry} (he : (Table.ofItems its).get? k = some e) :
    isValid k = true ∧ e.IsValid := by
  rcases Table.get?_ofItems its k with ⟨e', he', hdescribes⟩ | ⟨hnone, _⟩
  · obtain rfl := Option.some.inj (he.symm.trans he')
    obtain ⟨pre, body, post, hsplit, _, hkey, _⟩ := hdescribes.last
    have hselector : isValid e.selector = true := by
      apply hits (.rule e.selector body)
      · rw [hsplit]
        simp
      · simp [Item.texts]
    have hmerged : ∀ d ∈ Declaration.merge ((Item.bodies k its).flatMap Declaration.parse),
        d.IsValid := by
      intro d hd
      exact isValid_declared hits k d (Declaration.mem_of_mem_merge hd)
    refine ⟨?_, hselector, ?_, ?_⟩
    · rw [← hkey]
      exact isValid_normalize hselector
    · intro p hp
      rw [hdescribes.holds.order_eq] at hp
      obtain ⟨d, hd, rfl⟩ := List.mem_map.mp hp
      exact (hmerged d hd).1
    · intro pair hpair
      rw [hdescribes.holds.values_eq] at hpair
      obtain ⟨d, hd, rfl⟩ := List.mem_map.mp hpair
      exact hmerged d hd
  · rw [hnone] at he
    cases he

theorem isValid_spelling {it : Item} (hit : ∀ t ∈ it.texts, isValid t = true) :
    isValid it.spelling = true := by
  cases it with
  | comment t => exact hit t (by simp [Item.texts])
  | other t => exact hit t (by simp [Item.texts])
  | blank => rfl
  | rule selector body =>
      rw [Item.spelling, isValid_ascii_iff (by decide), isValid_ascii_iff (by decide)]
      exact ⟨hit selector (by simp [Item.texts]), hit body (by simp [Item.texts]), rfl⟩
  | atRule header body =>
      rw [Item.spelling, isValid_ascii_cons_iff (by decide), isValid_ascii_iff (by decide),
        isValid_ascii_iff (by decide)]
      exact ⟨hit header (by simp [Item.texts]), hit body (by simp [Item.texts]), rfl⟩

theorem isValid_deduplicated {s : Bytes} (hs : isValid s = true) :
    isValid (Sheet.scan s).deduplicated = true := by
  have hits := isValid_items hs
  rw [Sheet.deduplicated_eq, ← Item.join_spelling]
  refine Bytes.isValid_join (by decide) fun piece hpiece => ?_
  obtain ⟨it, hit, rfl⟩ := List.mem_map.mp hpiece
  apply isValid_spelling
  obtain ⟨old, hold, rfl⟩ := List.mem_map.mp hit
  have hvalid := hits old ((Item.lastRules_sublist _).subset hold)
  cases old with
  | rule selector body =>
      intro t ht
      rcases List.mem_cons.mp ht with rfl | ht
      · exact hvalid _ (by simp [Item.texts])
      · rw [List.mem_singleton.mp ht]
        apply Declaration.isValid_format
        intro d hd
        exact isValid_declared hits _ d (Declaration.mem_of_mem_merge hd)
  | _ => exact hvalid

end Cascade
