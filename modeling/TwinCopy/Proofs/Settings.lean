import Mathlib.Algebra.Ring.Int.Defs
import Mathlib.Algebra.Ring.Nat
import TwinCopy.Config.Document
import TwinCopy.Proofs.Layouts

/-!
# Configurations in documents

A configuration can be written as a flat document in any layout, with its keys in any order, some of
them omitted, and with unknown integer keys between them. Reading it gives the values written and
the defaults for the rest, with the result of validation.

`Config.written` is the configuration given by the entries. `Config.setEntry` updates it key by key
(`setEntry_eq`), and as keys are distinct the order does not matter (`written_cons`). The reader of
documents is assumed to satisfy `ReadsFlat`; that configurations read are valid needs no assumption:
`ofTomlWith_sound`.
-/

namespace TwinCopy

open Toml

/-! ## Validation -/

lemma isPowerOfTwo_iff (n : Nat) : isPowerOfTwo n = true ↔ ∃ k, n = 2 ^ k := by
  rw [isPowerOfTwo, Bool.and_eq_true, bne_iff_ne, beq_iff_eq]
  constructor
  · rintro ⟨hn, hbits⟩
    exact (Nat.and_sub_one_eq_zero_iff_isPowerOfTwo hn).1 hbits
  · rintro ⟨k, rfl⟩
    have hn : 2 ^ k ≠ 0 := Nat.two_pow_pos k |>.ne'
    exact ⟨hn, (Nat.and_sub_one_eq_zero_iff_isPowerOfTwo hn).2 ⟨k, rfl⟩⟩

namespace Config

/-- The sizes fit a word of 64 bits. -/
def Fits (c : Config) : Prop :=
  c.maxThreads < 2 ^ 64 ∧ c.counterBuckets < 2 ^ 64

/-- The result of validation for sizes that fit a word. -/
lemma validate_eq {c : Config} (h : c.Fits) :
    c.validate =
      if c.maxThreads = 0 then .error .noThreads
      else if ∃ k < 64, c.counterBuckets = 2 ^ k then .ok c
      else .error (.bucketsNotPowerOfTwo c.counterBuckets) := by
  have hbuckets : isPowerOfTwo c.counterBuckets = true ↔ ∃ k < 64, c.counterBuckets = 2 ^ k := by
    rw [isPowerOfTwo_iff]
    constructor
    · rintro ⟨k, hk⟩
      exact ⟨k, (Nat.pow_lt_pow_iff_right Nat.one_lt_two).1 (hk ▸ h.2), hk⟩
    · rintro ⟨k, -, hk⟩
      exact ⟨k, hk⟩
  simp only [validate, ← hbuckets, Bool.not_eq_true']
  cases isPowerOfTwo c.counterBuckets <;> simp

/-- Validation accepts a configuration unchanged. -/
lemma eq_of_validate {c c' : Config} (h : c.validate = .ok c') : c = c' := by
  unfold validate at h
  split at h
  · cases h
  · split at h
    · cases h
    · exact Except.ok.inj h

/-! ## The entries of a document -/

/-- The size given by a value. -/
def writtenSize : Value → Nat
  | .integer n => n.toNat
  | _ => 0

/-- The policy given by a value. -/
def writtenPolicy : Value → WaitPolicy
  | .text name => if name = "spin".toList then .spin else .yield
  | _ => .yield

/-- The configuration with the values written in the entries, and those of `c` for the rest. -/
def written (c : Config) (es : Entries) : Config where
  maxThreads := (es.lookup "max_threads".toList).elim c.maxThreads writtenSize
  counterBuckets := (es.lookup "counter_buckets".toList).elim c.counterBuckets writtenSize
  wait := (es.lookup "wait".toList).elim c.wait writtenPolicy

/-- The value of a policy is one of its names, and the values of other keys are integers. -/
def IsSetting (e : List Char × Value) : Prop :=
  if e.1 = "wait".toList then e.2 = .text "yield".toList ∨ e.2 = .text "spin".toList
  else ∃ n, e.2 = .integer n

/-- The integer is in range: 64 bits for sizes, 128 bits for other keys. -/
def inRange : List Char × Value → Bool
  | (key, .integer n) =>
      if key = "max_threads".toList ∨ key = "counter_buckets".toList then
        decide (0 ≤ n ∧ n < 2 ^ 64)
      else decide (-2 ^ 127 ≤ n ∧ n < 2 ^ 128)
  | _ => true

variable {c : Config} {key : List Char} {v : Value} {es : Entries}

lemma map_size? {β : Type} (n : Int) (f : Nat → β) :
    (Value.integer n).size?.map f =
      if decide (0 ≤ n ∧ n < 2 ^ 64) then some (f n.toNat) else none := by
  have hfits : (0 ≤ n ∧ n.toNat < UInt64.size) ↔ 0 ≤ n ∧ n < 2 ^ 64 := by
    rw [show UInt64.size = 2 ^ 64 from rfl]
    omega
  rw [Value.size?, if_congr hfits rfl rfl]
  by_cases hn : 0 ≤ n ∧ n < 2 ^ 64 <;> simp [hn]

lemma inRange_size (h : key = "max_threads".toList ∨ key = "counter_buckets".toList) (n : Int) :
    inRange (key, .integer n) = decide (0 ≤ n ∧ n < 2 ^ 64) := by
  rw [inRange, if_pos h]

lemma written_other (hthreads : key ≠ "max_threads".toList)
    (hbuckets : key ≠ "counter_buckets".toList) (hwait : key ≠ "wait".toList) :
    c.written [(key, v)] = c := by
  simp only [written, List.lookup_cons, beq_eq_false_iff_ne.2 hthreads.symm,
    beq_eq_false_iff_ne.2 hbuckets.symm, beq_eq_false_iff_ne.2 hwait.symm]
  rfl

/-- An entry with an integer in range updates the configuration. -/
lemma setEntry_eq (h : IsSetting (key, v)) :
    c.setEntry key v = if inRange (key, v) then some (c.written [(key, v)]) else none := by
  by_cases hwait : key = "wait".toList
  · subst hwait
    rcases h with rfl | rfl <;> rfl
  rw [IsSetting, if_neg hwait] at h
  obtain ⟨n, rfl⟩ := h
  by_cases hthreads : key = "max_threads".toList
  · subst hthreads
    rw [setEntry, if_pos rfl, map_size?, inRange_size (.inl rfl)]
    rfl
  by_cases hbuckets : key = "counter_buckets".toList
  · subst hbuckets
    rw [setEntry, if_neg hthreads, if_pos rfl, map_size?, inRange_size (.inr rfl)]
    rfl
  · have hrange : (Value.integer n).representable = inRange (key, .integer n) := by
      rw [inRange, if_neg (not_or.2 ⟨hthreads, hbuckets⟩)]
      rfl
    rw [setEntry, if_neg hthreads, if_neg hbuckets, if_neg hwait, hrange,
      written_other hthreads hbuckets hwait]

lemma elim_lookup_cons {β : Type} (h : key ∉ es.map Prod.fst) (k : List Char) (a : β)
    (f : Value → β) :
    (es.lookup k).elim ((List.lookup k [(key, v)]).elim a f) f =
      (List.lookup k ((key, v) :: es)).elim a f := by
  rw [List.lookup_cons, List.lookup_cons, List.lookup_nil]
  cases hk : k == key with
  | false => rfl
  | true =>
    obtain rfl := eq_of_beq hk
    rw [Option.isNone_iff_eq_none.1 (lookup_isNone h)]
    rfl

lemma written_cons (h : key ∉ es.map Prod.fst) :
    (c.written [(key, v)]).written es = c.written ((key, v) :: es) := by
  simp only [written, elim_lookup_cons h]

/-- Entries with integers in range give the configuration written. -/
lemma foldlM_setEntry (hsettings : ∀ e ∈ es, IsSetting e) (hdistinct : (es.map Prod.fst).Nodup) :
    es.foldlM (fun (c : Config) (key, v) => c.setEntry key v) c =
      if es.all inRange then some (c.written es) else none := by
  induction es generalizing c with
  | nil => rfl
  | cons e es ih =>
    obtain ⟨key, v⟩ := e
    obtain ⟨hkey, hrest⟩ := List.nodup_cons.1 hdistinct
    rw [List.foldlM_cons, List.all_cons]
    change (c.setEntry key v >>= fun c => es.foldlM _ c) = _
    rw [setEntry_eq (hsettings _ List.mem_cons_self)]
    cases inRange (key, v) with
    | false => rfl
    | true =>
      have hih := ih (c := c.written [(key, v)])
        (fun e he => hsettings e (List.mem_cons_of_mem _ he)) hrest
      rw [written_cons hkey] at hih
      exact hih

lemma size?_lt {n : Nat} (h : v.size? = some n) : n < 2 ^ 64 := by
  unfold Value.size? at h
  split at h
  · split at h
    · next hfits => exact Option.some.inj h ▸ hfits.2
    · cases h
  · cases h

/-- Every entry leaves sizes that fit. -/
lemma Fits.setEntry {c' : Config} (hc : c.Fits) (h : c.setEntry key v = some c') : c'.Fits := by
  unfold Config.setEntry at h
  split at h
  · obtain ⟨n, hn, rfl⟩ := Option.map_eq_some_iff.1 h
    exact ⟨size?_lt hn, hc.2⟩
  split at h
  · obtain ⟨n, hn, rfl⟩ := Option.map_eq_some_iff.1 h
    exact ⟨hc.1, size?_lt hn⟩
  split at h
  · obtain ⟨policy, -, rfl⟩ := Option.map_eq_some_iff.1 h
    exact hc
  split at h
  · exact Option.some.inj h ▸ hc
  · cases h

lemma Fits.foldlM {c' : Config} (hc : c.Fits)
    (h : es.foldlM (fun (c : Config) (key, v) => c.setEntry key v) c = some c') : c'.Fits := by
  induction es generalizing c with
  | nil => exact Option.some.inj h ▸ hc
  | cons e es ih =>
    rw [List.foldlM_cons] at h
    obtain ⟨found, hfound, hrest⟩ := Option.bind_eq_some_iff.1 h
    exact ih (hc.setEntry hfound) hrest

lemma fits_ofEntries {c' : Config} (h : ofEntries es = some c') : c'.Fits :=
  Fits.foldlM ⟨by decide, by decide⟩ h

variable {read : EntryReader}

/-- A configuration that is read has sizes that fit, and is valid. -/
lemma ofTomlWith_sound {document : String} (h : ofTomlWith read document = .ok c) :
    c.Fits ∧ c.validate = .ok c := by
  unfold ofTomlWith at h
  split at h
  · next found hfound =>
    obtain ⟨es, -, hes⟩ := Option.bind_eq_some_iff.1 hfound
    obtain rfl := eq_of_validate h
    exact ⟨fits_ofEntries hes, h⟩
  · cases h

/-- A flat document of settings is read as what its entries give. -/
lemma ofTomlWith_text (hread : ReadsFlat read) (d : Flat)
    (hsettings : ∀ e ∈ d.entries, IsSetting e) : ofTomlWith read (.ofList d.text) =
      if d.entries.all inRange then (standard.written d.entries).validate
      else .error .configMalformed := by
  rw [ofTomlWith, String.toList_ofList, hread d]
  simp only [Option.bind_eq_bind, Option.bind_some, ofEntries]
  rw [foldlM_setEntry hsettings d.distinct]
  cases d.entries.all inRange <;> rfl

lemma fits_written (d : Flat) (hsettings : ∀ e ∈ d.entries, IsSetting e)
    (hrange : d.entries.all inRange = true) : (standard.written d.entries).Fits := by
  have hread : ofEntries d.entries = some (standard.written d.entries) := by
    rw [ofEntries, foldlM_setEntry hsettings d.distinct, if_pos hrange]
  exact fits_ofEntries hread

end Config

/-! ## Rendering -/

/-- The name of a policy. -/
def WaitPolicy.name : WaitPolicy → String
  | .yield => "yield"
  | .spin => "spin"

namespace Config

/-- The entries for all keys of a configuration. -/
def full (c : Config) : Entries :=
  [("max_threads".toList, .integer c.maxThreads),
    ("counter_buckets".toList, .integer c.counterBuckets),
    ("wait".toList, .text c.wait.name.toList)]

/-- The document with these entries. -/
def render (c : Config) : String :=
  "max_threads = " ++ toString c.maxThreads ++
    "\ncounter_buckets = " ++ toString c.counterBuckets ++
    "\nwait = \"" ++ c.wait.name ++ "\"\n"

lemma isSetting_full (c : Config) : ∀ e ∈ c.full, IsSetting e := by
  rw [full, List.forall_mem_cons, List.forall_mem_cons, List.forall_mem_singleton]
  refine ⟨⟨_, rfl⟩, ⟨_, rfl⟩, ?_⟩
  cases c.wait with
  | yield => exact .inl rfl
  | spin => exact .inr rfl

lemma inRange_full {c : Config} (h : c.Fits) : c.full.all inRange = true := by
  obtain ⟨hthreads, hbuckets⟩ := h
  have hsize {n : Nat} (hn : n < 2 ^ 64) : decide (0 ≤ (n : Int) ∧ (n : Int) < 2 ^ 64) = true := by
    rw [decide_eq_true_iff]
    omega
  rw [full, List.all_cons, List.all_cons, inRange_size (.inl rfl), inRange_size (.inr rfl),
    hsize hthreads, hsize hbuckets]
  rfl

lemma writtenPolicy_name (policy : WaitPolicy) :
    writtenPolicy (.text policy.name.toList) = policy := by
  cases policy <;> simp [writtenPolicy, WaitPolicy.name]

lemma written_full (c c' : Config) : c'.written c.full = c := by
  change (⟨Int.toNat c.maxThreads, Int.toNat c.counterBuckets,
    writtenPolicy (.text c.wait.name.toList)⟩ : Config) = c
  rw [Int.toNat_natCast, Int.toNat_natCast, writtenPolicy_name]

lemma toList_render (c : Config) : c.render.toList =
    "max_threads = ".toList ++ (Nat.toDigits 10 c.maxThreads ++
      ("\ncounter_buckets = ".toList ++ (Nat.toDigits 10 c.counterBuckets ++
        ("\nwait = \"".toList ++ (c.wait.name.toList ++ "\"\n".toList))))) := by
  have happend (s₁ s₂ s₃ s₄ s₅ s₆ s₇ : String) : (s₁ ++ s₂ ++ s₃ ++ s₄ ++ s₅ ++ s₆ ++ s₇).toList =
      s₁.toList ++ (s₂.toList ++ (s₃.toList ++ (s₄.toList ++ (s₅.toList ++ (s₆.toList ++
        s₇.toList))))) := by
    simp only [String.toList_append, List.append_assoc]
  have hdigits (n : Nat) : (toString n).toList = Nat.toDigits 10 n := by
    rw [Nat.toString_eq_ofList_toDigits, String.toList_ofList]
  have hrender := happend "max_threads = " (toString c.maxThreads) "\ncounter_buckets = "
    (toString c.counterBuckets) "\nwait = \"" c.wait.name "\"\n"
  rw [hdigits, hdigits] at hrender
  exact hrender

/-- A rendering is a flat document. -/
lemma exists_flat (c : Config) :
    ∃ d : Flat, .ofList d.text = c.render ∧ d.entries = c.full := by
  obtain ⟨threads, hthreads, hthreadsValue⟩ := Numeral.exists_numeral c.maxThreads
  obtain ⟨buckets, hbuckets, hbucketsValue⟩ := Numeral.exists_numeral c.counterBuckets
  have hname : c.wait.name.toList.all isBasicChar = true := by cases c.wait <;> decide
  refine ⟨⟨false,
    [(.plain (.bare ⟨"max_threads".toList, by decide⟩ (by decide)) (.numeral threads), .feed),
      (.plain (.bare ⟨"counter_buckets".toList, by decide⟩ (by decide)) (.numeral buckets), .feed),
      (.plain (.bare ⟨"wait".toList, by decide⟩ (by decide)) (.quoted (.basic ⟨_, hname⟩)), .feed)],
    .empty, ?_⟩, ?_, ?_⟩
  · change ["max_threads".toList, "counter_buckets".toList, "wait".toList].Nodup
    decide
  · apply String.toList_inj.1
    rw [String.toList_ofList, c.toList_render]
    simp only [Flat.text, textOf, List.flatMap_cons, List.flatMap_nil, Line.text_plain, Key.text,
      Scalar.text, Quoted.text, Quoted.content, Quoted.quote, Newline.text, hthreads, hbuckets,
      List.append_assoc, List.cons_append]
    rfl
  · rw [full, ← hthreadsValue, ← hbucketsValue]
    rfl

lemma ofTomlWith_render {read : EntryReader} (hread : ReadsFlat read) {c : Config} (h : c.Fits) :
    ofTomlWith read c.render = c.validate := by
  obtain ⟨d, htext, hentries⟩ := c.exists_flat
  rw [← htext, ofTomlWith_text hread d (hentries ▸ c.isSetting_full), hentries,
    if_pos (inRange_full h), written_full]

/-- The specification of a reader of configurations. A flat document of settings, in any layout and
order, and with any integers for unknown keys, is read as the configuration with the values written
and the defaults 128, 64 and `yield`, which is then accepted or refused by validation. The document
is malformed only if an integer is out of range. Every valid configuration can be read from its
rendering, and every configuration read from any document is valid. -/
structure ReadBy (ofToml : String → Except Error Config) : Prop where
  flat : ∀ d : Flat, (∀ e ∈ d.entries, IsSetting e) →
    let c := (⟨128, 64, .yield⟩ : Config).written d.entries
    (d.entries.all inRange = true →
      ofToml (.ofList d.text) = c.validate ∧
      c.validate =
        if c.maxThreads = 0 then .error .noThreads
        else if ∃ k < 64, c.counterBuckets = 2 ^ k then .ok c
        else .error (.bucketsNotPowerOfTwo c.counterBuckets)) ∧
    (d.entries.all inRange = false → ofToml (.ofList d.text) = .error .configMalformed)
  render : ∀ c : Config, c.Fits → c.validate = .ok c → ofToml c.render = .ok c
  sound : ∀ document c, ofToml document = .ok c → c.Fits ∧ c.validate = .ok c

lemma readBy_ofTomlWith {read : EntryReader} (hread : ReadsFlat read) :
    ReadBy (ofTomlWith read) where
  flat d hsettings := by
    refine ⟨fun hrange => ⟨?_, validate_eq (fits_written d hsettings hrange)⟩, fun hrange => ?_⟩
    · rw [ofTomlWith_text hread d hsettings, if_pos hrange]
      rfl
    · rw [ofTomlWith_text hread d hsettings, if_neg (by simp [hrange])]
  render c hfits hvalid := by
    rw [ofTomlWith_render hread hfits, hvalid]
  sound _ _ := ofTomlWith_sound

end Config

/-! ## Reading -/

/-- Every reader of documents that satisfies `ReadsFlat` gives a reader of configurations with this
specification, and `Toml.entriesOf` satisfies it. -/
theorem config_documents_read :
    (∀ read, ReadsFlat read → Config.ReadBy (Config.ofTomlWith read)) ∧ ReadsFlat entriesOf ∧
      Config.ReadBy Config.ofToml :=
  ⟨fun _ => Config.readBy_ofTomlWith, readsFlat_entriesOf,
    Config.readBy_ofTomlWith readsFlat_entriesOf⟩

/-- A document with a byte order mark, comments, an underscore, a sign, and both kinds of quotes. -/
def laidOut : Flat where
  marked := true
  lines :=
    [(⟨noBlanks, none, ⟨noBlanks, some ⟨" sizes".toList, by decide⟩⟩⟩, .returnFeed),
      (⟨⟨['\t'], rfl⟩,
        some ⟨.bare ⟨"max_threads".toList, by decide⟩ (by decide), noBlanks, noBlanks,
        .numeral ⟨none, ⟨'1', rfl⟩, [(true, ⟨'0', rfl⟩), (false, ⟨'0', rfl⟩), (false, ⟨'0', rfl⟩)],
          by decide⟩⟩, .empty⟩, .feed),
      (.empty, .feed),
      (.plain (.quoted (.basic ⟨"re tries".toList, by decide⟩))
        (.numeral ⟨some .minus, ⟨'5', rfl⟩, [], nofun⟩), .feed)]
  last := .plain (.bare ⟨"wait".toList, by decide⟩ (by decide))
    (.quoted (.literal ⟨"spin".toList, by decide⟩))
  distinct := by decide

theorem config_documents_read_laid_out :
    .ofList laidOut.text =
      "\ufeff# sizes\r\n\tmax_threads=1_000\n\n\"re tries\" = -5\nwait = 'spin'" ∧
    (∀ e ∈ laidOut.entries, Config.IsSetting e) ∧ laidOut.entries.all Config.inRange = true ∧
    Config.ofToml (.ofList laidOut.text) = .ok ⟨1000, 64, .spin⟩ ∧
    Config.ofToml (Config.render ⟨8, 2 ^ 63, .spin⟩) = .ok ⟨8, 2 ^ 63, .spin⟩ := by
  have hsettings : ∀ e ∈ laidOut.entries, Config.IsSetting e := by
    change ∀ e ∈ [("max_threads".toList, Value.integer 1000), ("re tries".toList, .integer (-5)),
      ("wait".toList, .text "spin".toList)], Config.IsSetting e
    rw [List.forall_mem_cons, List.forall_mem_cons, List.forall_mem_singleton]
    exact ⟨⟨_, rfl⟩, ⟨_, rfl⟩, .inr rfl⟩
  have hread : Config.ReadBy Config.ofToml := config_documents_read.1 entriesOf readsFlat_entriesOf
  refine ⟨by decide, hsettings, by decide, ?_, ?_⟩
  · exact ((hread.flat laidOut hsettings).1 (by decide)).1
  · exact hread.render ⟨8, 2 ^ 63, .spin⟩ ⟨by decide, by decide⟩ rfl

end TwinCopy
