import Cascade.Proofs.Command.Backup
import Cascade.Proofs.Merge.Validity

/-!
# A merged file can be read again

What comes out of a valid text is valid. So a file that was read as UTF-8 and rewritten
in place can be read as UTF-8 once more, as it stands.
-/

namespace Cascade

open Utf8

theorem Charset.decode?_utf8_eq_some_iff [Codecs] {data s : Bytes} :
    Charset.utf8.decode? data = some s ↔ isValid data = true ∧ s = data := by
  change (if isValid data then some data else none) = some s ↔ _
  split
  · next hvalid => simp [hvalid, eq_comm]
  · next hinvalid => simp [hinvalid]

/-- Every part of every token of a valid text, all that is in its table, and the merged
text are valid. -/
structure Sheet.IsValid (sheet : Sheet) : Prop where
  tokens : ∀ t ∈ sheet.tokens, ∀ part ∈ t.item.texts, isValid part = true
  table : ∀ k e, sheet.table.get? k = some e → isValid k = true ∧ e.IsValid
  deduplicated : isValid sheet.deduplicated = true

theorem isValid_scan {s : Bytes} (hs : isValid s = true) : (Sheet.scan s).IsValid := by
  refine ⟨?_, ?_, isValid_deduplicated hs⟩
  · intro t ht
    exact isValid_items hs t.item (List.mem_map_of_mem ht)
  · intro k e he
    rw [Sheet.table, Table.ofTokens_eq] at he
    exact isValid_ofItems (isValid_items hs) he

namespace Dedupe

variable {o : Options} {S : Location → Prop} {w w' : Machine} {src dst bak : Location}
  {data s : Bytes} {mode : Nat}

/-- After a run in place, the source can be loaded and has the merged text. -/
theorem Written.load_source [Codecs] (h : Written o S w w' src dst bak data s mode) (hdst : dst = src)
    (hlog : ¬ S src) : w'.load o.source = .ok (Sheet.scan s).deduplicated := by
  subst hdst
  obtain ⟨m, hmode, hm⟩ := h.written hlog
  obtain rfl : m = mode := hmode rfl
  exact Machine.load_eq_ok_iff.mpr ⟨dst, m, h.grown.denotes h.source, hm, h.readable⟩

/-- Valid text stays valid, from the tokens of a scan to the merged text. So a file that
was read as UTF-8 and overwritten, under whatever spelling, can be read as UTF-8 again,
and what is read is what it holds. -/
theorem valid_text_stays_valid [Codecs] :
    (∀ s, isValid s = true → (Sheet.scan s).IsValid) ∧
    ∀ (env : Environment) (command : Bytes) (line : Line) (path : Bytes) (others : List Bytes)
      (ρ ρ' : Option Report) (w w' : Machine) (src : Location),
      env.charset = Charset.utf8 → line.arguments = path :: others → w.disk.IsTree →
      env.logger.Elsewhere w [path] → w.Denotes path src →
      Attempt.Ran (run env command line) ρ w (.ok ()) ρ' w' →
      w'.Denotes (options env line path).destination src →
      ∃ data out, w.load path = .ok data ∧ out = (Sheet.scan data).deduplicated ∧
        w'.load path = .ok out ∧
        (Source.read path Charset.utf8 : StateM Machine _).run w' = (.ok out, w') := by
  refine ⟨fun s => isValid_scan, ?_⟩
  intro env command line path others ρ ρ' w w' src hcharset hline htree hlog hsrc hrun hplace
  obtain ⟨src', dst, bak, data, s, mode, hdone⟩ := written_of_run hline htree hlog hrun
  obtain rfl : src = src' := Except.ok.inj (hsrc.symm.trans hdone.source)
  have hdst : dst = src := Except.ok.inj (hdone.destination.symm.trans hplace)
  have hdecoded : Charset.utf8.decode? data = some s := hcharset ▸ hdone.decoded
  obtain ⟨hvalid, rfl⟩ := Charset.decode?_utf8_eq_some_iff.mp hdecoded
  have hload : w'.load path = .ok (Sheet.scan s).deduplicated :=
    hdone.load_source hdst (hlog.not_writes List.mem_cons_self hsrc)
  refine ⟨s, _, ?_, rfl, hload, ?_⟩
  · exact Machine.load_eq_ok_iff.mpr ⟨src, mode, hsrc, hdone.held, hdone.readable⟩
  · apply Source.run_read_ok hload
    exact Charset.decode?_utf8_eq_some_iff.mpr ⟨isValid_deduplicated hvalid, rfl⟩

section Samples

open scoped Codecs

/-- A selector of two bytes and a value of three, in a file that is overwritten under
another spelling. -/
theorem valid_text_stays_valid_respelled :
    let css := text "é\x7bx:1\x7dé\x7bx:€\x7d"
    let disk : Disk := ⟨⟨[([text "s"], .dir Disk.dirMode), ([text "s", text "a.css"], .file css 0o600)]⟩⟩
    let w : Machine := ⟨disk, text "/s", text "/tmp", ⟨[], none⟩, [], [], 0, [], [], [], []⟩
    let env : Environment := ⟨none, ⟨[], [.memory]⟩, .utf8, false⟩
    let line : Line := ⟨[(output.name, .text (text "../s/a.css"))], [text "a.css"]⟩
    isValid css = true ∧ (Sheet.scan css).IsValid ∧
      ∃ ρ' w' out, Attempt.Ran (run env (text "dedupe") line) none w (.ok ()) ρ' w' ∧
        out = text "é\x7b\n  x: €;\n\x7d" ∧
        (Source.read (text "a.css") Charset.utf8 : StateM Machine _).run w' = (.ok out, w') := by
  intro css disk w env line
  have hvalid : isValid css = true := by decide
  have hsrc : w.Denotes (text "a.css") [text "s", text "a.css"] := by decide
  have hlog : env.logger.Elsewhere w [text "a.css"] := fun _ hfile => absurd hfile List.not_mem_nil
  obtain ⟨⟨⟨res, ρ'⟩, w'⟩, hrun⟩ : ∃ out,
    ((run env (text "dedupe") line : Action (StateM Machine) Unit).run.run none).run w = out := ⟨_, rfl⟩
  have hdone : res = .ok () ∧ w'.Denotes (text "../s/a.css") [text "s", text "a.css"] := by
    have hout : ∀ out : (Except Failure Unit × Option Report) × Machine,
        ((run env (text "dedupe") line : Action (StateM Machine) Unit).run.run none).run w = out →
        out.1.1 = .ok () ∧ out.2.Denotes (text "../s/a.css") [text "s", text "a.css"] := by
      rintro _ rfl
      decide +kernel
    exact hout _ hrun
  obtain ⟨rfl, hplace⟩ := hdone
  obtain ⟨data, out, hload, hout, _, hread⟩ := valid_text_stays_valid.2 env (text "dedupe") line
    (text "a.css") [] none ρ' w w' [text "s", text "a.css"] rfl rfl (by decide) hlog hsrc hrun hplace
  obtain rfl : css = data :=
    Except.ok.inj ((by decide : w.load (text "a.css") = .ok css).symm.trans hload)
  refine ⟨hvalid, valid_text_stays_valid.1 css hvalid, ρ', w', out, hrun, hout.trans ?_, hread⟩
  decide

end Samples

end Dedupe

end Cascade
