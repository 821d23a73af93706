/-
  Settings that are written can be read, with any library that renders documents faithfully.

  1. **The document** (`isPlain_toDocument`, `atMost_toDocument`): the document for settings is plain, and
     the only number in it that can be too large is that of the samples kept.
  2. **In any order** (`foldlM_perm`): settings are set one by one, each by its name, so a library may give
     them in any order.
  3. **Taking settings** (`audio?_of_perm`, `ofEntries?_of_saidBy`): what is said is set, and what is not
     keeps its default.
  4. **Defaults** (`check_without`): settings that make sense do so with any of them at their defaults.

  Main statement: settings that make sense are read back as they are, and with keys removed as the same
  settings with these at their defaults, unless there are too many samples for the library to write;
  others are refused for what is wrong with them (`round_trip`).
-/
import Mathlib.Algebra.Group.Nat.Defs
import Famicom.Proofs.Toml.Faithful
import Famicom.Settings.Document

namespace Famicom.Settings

open Toml (Scalar Value entry keeps eraseKeys)

/-- Audio settings, those of removed keys at their defaults. -/
def audioWithout (removed : List String → Bool) (audio : MixerSettings) : MixerSettings where
  sampleRate :=
    if removed ["audio", "sample_rate"] then ({} : MixerSettings).sampleRate else audio.sampleRate
  bufferSamples :=
    if removed ["audio", "buffer_samples"] then ({} : MixerSettings).bufferSamples
    else audio.bufferSamples
  cycleLength :=
    if removed ["audio", "cycle_length"] then ({} : MixerSettings).cycleLength else audio.cycleLength

/-- Settings, those of removed keys at their defaults, and those of a removed table too. -/
def without (removed : List String → Bool) (s : Settings) : Settings where
  region := if removed ["region"] then ({} : Settings).region else s.region
  audio := if removed ["audio"] then {} else audioWithout removed s.audio

variable (removed : List String → Bool) (s : Settings)

/-! ## The document -/

/-- The audio settings under their names. -/
def audioNumbers (audio : MixerSettings) : List (String × Scalar) :=
  [("sample_rate", .whole audio.sampleRate.toNat), ("buffer_samples", .whole audio.bufferSamples.toNat),
    ("cycle_length", .whole audio.cycleLength.toNat)]

/-- Settings are written with plain names and values. -/
theorem isPlain_toDocument : s.toDocument.IsPlain := by
  have hregion : s.region.key.toList ≠ [] ∧ s.region.key.toList.all Toml.isPlain = true := by
    cases s.region <;> decide
  have hscalars : s.toDocument.scalars = ("region", .text s.region.key) :: audioNumbers s.audio := rfl
  constructor
  · exact (by decide : ["region", "audio"].Nodup)
  · intro t ht
    rw [List.mem_singleton.mp ht]
    exact (by decide : audioNames.Nodup)
  · intro t ht
    rw [List.mem_singleton.mp ht]
    exact (by decide : Toml.IsBareKey "audio")
  · have hnames : ∀ name ∈ "region" :: audioNames, Toml.IsBareKey name := by decide
    intro e he
    exact hnames e.1 (List.mem_map_of_mem (f := Prod.fst) (hscalars ▸ he))
  · intro e he
    rw [hscalars] at he
    rcases List.mem_cons.mp he with rfl | he
    · exact hregion
    · simp only [audioNumbers, List.mem_cons, List.not_mem_nil, or_false] at he
      rcases he with rfl | rfl | rfl <;> exact trivial

/-- Of the numbers in the document, all but one have 32 bits. -/
theorem atMost_toDocument {largest : Nat} (h : 2 ^ 32 ≤ largest) :
    s.toDocument.atMost largest = true ↔ s.audio.bufferSamples.toNat ≤ largest := by
  have hrate := s.audio.sampleRate.toNat_lt
  have hcycles := s.audio.cycleLength.toNat_lt
  have hall : s.toDocument.atMost largest = true ↔ s.audio.sampleRate.toNat ≤ largest ∧
      s.audio.bufferSamples.toNat ≤ largest ∧ s.audio.cycleLength.toNat ≤ largest := by
    simp [Toml.Document.atMost, Toml.Document.scalars, toDocument, Scalar.atMost]
  rw [hall]
  omega

/-! ## In any order -/

/-- Steps that can be exchanged can be taken in any order. -/
theorem foldlM_perm {α β : Type} {f : β → α → Option β} {xs ys : List α} (h : xs.Perm ys)
    (hcomm : ∀ x ∈ ys, ∀ y ∈ ys, ∀ b, (f b x).bind (f · y) = (f b y).bind (f · x)) (b : β) :
    xs.foldlM f b = ys.foldlM f b := by
  induction h generalizing b with
  | nil => rfl
  | @cons x xs ys _ ih =>
    have htail := ih fun y hy z hz => hcomm y (List.mem_cons_of_mem _ hy) z (List.mem_cons_of_mem _ hz)
    rw [List.foldlM_cons, List.foldlM_cons]
    exact congrArg ((f b x).bind ·) (funext htail)
  | swap x y xs =>
    have hswapped := hcomm x (by simp) y (by simp) b
    rw [List.foldlM_cons, List.foldlM_cons]
    simp only [List.foldlM_cons, Option.bind_eq_bind, ← Option.bind_assoc]
    rw [hswapped]
  | @trans xs ys zs _ hyz ih ih' =>
    have hmiddle := ih fun x hx y hy => hcomm x (hyz.mem_iff.mp hx) y (hyz.mem_iff.mp hy)
    rw [hmiddle, ih' hcomm]

/-! ## Taking settings -/

/-- A whole number below the bound is taken. -/
theorem wholeBelow?_ofNat {bound n : Nat} (h : n < bound) :
    wholeBelow? bound (.integer (some n)) = some n := by
  have hwhole : wholeBelow? bound (.integer (some n)) = some (n : Int).toNat :=
    if_pos ⟨Int.natCast_nonneg n, Int.ofNat_lt.mpr h⟩
  rw [hwhole, Int.toNat_natCast]

/-- Sets an audio setting to a value that was written, by its name. -/
def setWritten? (audio : MixerSettings) (e : String × Scalar) : Option MixerSettings :=
  setAudio? audio e.1 e.2.value

theorem setWritten?_sampleRate (audio : MixerSettings) (n : UInt32) :
    setWritten? audio ("sample_rate", .whole n.toNat) = some { audio with sampleRate := n } := by
  have hset (v : Value) : setAudio? audio "sample_rate" v =
      (wholeBelow? (2 ^ 32) v).map fun n => { audio with sampleRate := .ofNat n } := rfl
  rw [setWritten?, hset, Scalar.value, wholeBelow?_ofNat n.toNat_lt, Option.map_some,
    UInt32.ofNat_toNat]

theorem setWritten?_bufferSamples (audio : MixerSettings) (n : UInt64) :
    setWritten? audio ("buffer_samples", .whole n.toNat) = some { audio with bufferSamples := n } := by
  have hset (v : Value) : setAudio? audio "buffer_samples" v =
      (wholeBelow? (2 ^ 64) v).map fun n => { audio with bufferSamples := .ofNat n } := rfl
  rw [setWritten?, hset, Scalar.value, wholeBelow?_ofNat n.toNat_lt, Option.map_some,
    UInt64.ofNat_toNat]

theorem setWritten?_cycleLength (audio : MixerSettings) (n : UInt32) :
    setWritten? audio ("cycle_length", .whole n.toNat) = some { audio with cycleLength := n } := by
  have hset (v : Value) : setAudio? audio "cycle_length" v =
      (wholeBelow? (2 ^ 32) v).map fun n => { audio with cycleLength := .ofNat n } := rfl
  rw [setWritten?, hset, Scalar.value, wholeBelow?_ofNat n.toNat_lt, Option.map_some,
    UInt32.ofNat_toNat]

/-- Audio settings can be set in any order: each changes its own part. -/
theorem setWritten?_comm (written : MixerSettings) :
    ∀ x ∈ audioNumbers written, ∀ y ∈ audioNumbers written, ∀ audio,
      (setWritten? audio x).bind (setWritten? · y) = (setWritten? audio y).bind (setWritten? · x) := by
  intro x hx y hy audio
  simp only [audioNumbers, List.mem_cons, List.not_mem_nil, or_false] at hx hy
  rcases hx with rfl | rfl | rfl <;> rcases hy with rfl | rfl | rfl <;>
    simp only [setWritten?_sampleRate, setWritten?_bufferSamples, setWritten?_cycleLength,
      Option.bind_some]

/-- Of the audio settings those are set whose keys are kept. -/
theorem foldlM_setWritten? (written : MixerSettings) (hkept : removed ["audio"] = false) :
    ((audioNumbers written).filter (keeps removed (some "audio") ·.1)).foldlM setWritten? {} =
      some (audioWithout removed written) := by
  unfold audioNumbers audioWithout
  simp only [List.filter_cons, List.filter_nil, keeps, hkept, Bool.not_false, Bool.true_and]
  cases removed ["audio", "sample_rate"] <;> cases removed ["audio", "buffer_samples"] <;>
    cases removed ["audio", "cycle_length"] <;>
    simp [setWritten?_sampleRate, setWritten?_bufferSamples, setWritten?_cycleLength]

/-- A table of the audio settings whose keys are kept stands for them, and for the defaults of the others,
    in whatever order it gives them. -/
theorem audio?_of_perm {entries : List (String × Value)} (hkept : removed ["audio"] = false)
    (h : entries.Perm
      (((audioNumbers s.audio).filter (keeps removed (some "audio") ·.1)).map entry)) :
    audio? (.table entries) = some (audioWithout removed s.audio) := by
  have hcomm : ∀ x ∈ ((audioNumbers s.audio).filter (keeps removed (some "audio") ·.1)).map entry,
      ∀ y ∈ ((audioNumbers s.audio).filter (keeps removed (some "audio") ·.1)).map entry, ∀ audio,
        (setAudio? audio x.1 x.2).bind (fun audio => setAudio? audio y.1 y.2) =
          (setAudio? audio y.1 y.2).bind (fun audio => setAudio? audio x.1 x.2) := by
    intro x hx y hy audio
    obtain ⟨a, ha, rfl⟩ := List.mem_map.mp hx
    obtain ⟨b, hb, rfl⟩ := List.mem_map.mp hy
    exact setWritten?_comm s.audio a (List.mem_of_mem_filter ha) b (List.mem_of_mem_filter hb) audio
  calc audio? (.table entries)
      = entries.foldlM (fun audio e => setAudio? audio e.1 e.2) {} := rfl
    _ = _ := foldlM_perm h hcomm {}
    _ = ((audioNumbers s.audio).filter (keeps removed (some "audio") ·.1)).foldlM setWritten? {} :=
        List.foldlM_map
    _ = some (audioWithout removed s.audio) := foldlM_setWritten? removed s.audio hkept

/-- Of the document the region is left, unless it is removed. -/
theorem fields_erase : (s.toDocument.erase removed).fields.map entry =
    if removed ["region"] then [] else [("region", .string s.region.key)] := by
  have hfields : (s.toDocument.erase removed).fields =
      [("region", Scalar.text s.region.key)].filter (keeps removed none ·.1) := rfl
  rw [hfields, List.filter_cons, List.filter_nil]
  unfold keeps
  cases removed ["region"] <;> rfl

/-- Of the table of audio settings those are left that are not removed, unless the table is. -/
theorem tables_erase : (s.toDocument.erase removed).tables = if removed ["audio"] then [] else
    [("audio", (audioNumbers s.audio).filter (keeps removed (some "audio") ·.1))] := by
  have htables : (s.toDocument.erase removed).tables =
      ([("audio", audioNumbers s.audio)].filter (keeps removed none ·.1)).map fun t =>
        (t.1, t.2.filter (keeps removed (some t.1) ·.1)) := rfl
  have hkeeps : keeps removed none "audio" = !removed ["audio"] := rfl
  rw [htables, List.filter_cons, List.filter_nil, hkeeps]
  cases removed ["audio"] <;> rfl

/-- The name of a region sets it. -/
theorem set?_region (t : Settings) (region : Region) :
    set? t "region" (.string region.key) = some { t with region } := by
  have hset (v : Value) : set? t "region" v = (region? v).map fun region => { t with region } := rfl
  rw [hset, region?, Region.ofKey?_key]
  rfl

/-- A value that stands for audio settings sets them. -/
theorem set?_audio (t : Settings) {v : Value} {audio : MixerSettings} (h : audio? v = some audio) :
    set? t "audio" v = some { t with audio } := by
  have hset (v : Value) : set? t "audio" v = (audio? v).map fun audio => { t with audio } := rfl
  rw [hset, h]
  rfl

/-- What a document without the removed keys says stands for the settings with these at their defaults. -/
theorem ofEntries?_of_saidBy {read : List (String × Value)}
    (h : (s.toDocument.erase removed).SaidBy read) : ofEntries? read = some (s.without removed) := by
  obtain ⟨tables, htables, hperm⟩ := h
  rw [tables_erase] at htables
  rw [fields_erase] at hperm
  unfold ofEntries? without
  cases ha : removed ["audio"] with
  | true =>
    rw [ha] at htables
    obtain rfl : tables = [] := htables
    cases hr : removed ["region"] with
    | true =>
      rw [hr] at hperm
      rw [foldlM_perm hperm (by simp)]
      rfl
    | false =>
      rw [hr] at hperm
      rw [foldlM_perm hperm (by simp)]
      simp [set?_region]
  | false =>
    -- the table of audio settings comes in some order, too
    rw [ha] at htables
    obtain ⟨es, rest, hes, rfl, rfl⟩ := htables
    have htable (t : Settings) := set?_audio t (audio?_of_perm removed s ha hes)
    cases hr : removed ["region"] with
    | true =>
      rw [hr] at hperm
      rw [foldlM_perm hperm (by simp)]
      simp [htable]
    | false =>
      rw [hr] at hperm
      rw [foldlM_perm hperm (by simp [set?_region, htable])]
      simp [set?_region, htable]

/-! ## Defaults -/

/-- Settings that make sense do so with any of them at their defaults, which make sense. -/
theorem check_without (h : s.check = .ok ()) : (s.without removed).check = .ok () := by
  have hdefault : ({} : Settings).check = .ok () := rfl
  rw [check_eq_ok_iff] at h hdefault ⊢
  unfold without
  cases removed ["audio"] with
  | true => exact hdefault
  | false =>
    unfold audioWithout
    refine ⟨?_, ?_, ?_⟩
    · cases removed ["audio", "sample_rate"] with
      | true => exact hdefault.1
      | false => exact h.1
    · cases removed ["audio", "buffer_samples"] with
      | true => exact hdefault.2.1
      | false => exact h.2.1
    · cases removed ["audio", "cycle_length"] with
      | true => exact hdefault.2.2
      | false => exact h.2.2

/-! ## There and back -/

variable {lib : Toml.Library} {largest : Nat} {text : String}

/-- Settings are written iff the library can write the number of samples kept. -/
theorem toText_eq_error_iff (hlib : lib.Faithful largest) (h : 2 ^ 32 ≤ largest) (e : SettingsError) :
    s.toText lib = .error e ↔ e = .unwritable ∧ largest < s.audio.bufferSamples.toNat := by
  have hwrites := (hlib.writes_iff _ (isPlain_toDocument s)).trans (atMost_toDocument s h)
  unfold toText
  cases hw : lib.write? s.toDocument with
  | none =>
    have hlarge : ¬ s.audio.bufferSamples.toNat ≤ largest := by
      rw [← hwrites, hw]
      exact Bool.false_ne_true
    rw [Except.error.injEq]
    exact ⟨fun he => ⟨he.symm, Nat.lt_of_not_le hlarge⟩, fun he => he.1.symm⟩
  | some text =>
    have hsmall : s.audio.bufferSamples.toNat ≤ largest := by
      rw [← hwrites, hw]
      rfl
    refine ⟨fun he => ?_, fun he => absurd hsmall (Nat.not_le.mpr he.2)⟩
    cases he

/-- What was written stands, with any keys removed, for the settings with these at their defaults. -/
theorem ofText_eraseKeys (hlib : lib.Faithful largest) (h : s.toText lib = .ok text) :
    ofText lib (eraseKeys removed text) =
      match (s.without removed).check with
      | .ok _ => .ok (s.without removed)
      | .error e => .error (.invalid e) := by
  have hwritten : lib.write? s.toDocument = some text := by
    unfold toText at h
    split at h
    · next hw => rw [hw, Except.ok.inj h]
    · cases h
  obtain ⟨read, hread, hsaid⟩ := hlib.reads _ _ (isPlain_toDocument s) hwritten removed
  have hfields : (lib.read? (eraseKeys removed text)).bind ofEntries? = some (s.without removed) := by
    rw [hread, Option.bind_some, ofEntries?_of_saidBy removed s hsaid]
  cases hcheck : (s.without removed).check with
  | ok _ => simp only [ofText, hfields, hcheck]
  | error e => simp only [ofText, hfields, hcheck]

/-- With a library for numbers of 64 bits with a sign, settings that make sense cannot be written iff they
    keep more samples than such a number counts.  Else they are read back as they are, and with any keys
    removed as the same settings with these at their defaults.  Settings that make no sense are refused for
    what is wrong with them when their text is read. -/
theorem round_trip (hlib : lib.Faithful (2 ^ 63 - 1)) (s : Settings) :
    (s.check = .ok () →
      (∀ e, s.toText lib = .error e ↔ e = .unwritable ∧ 2 ^ 63 - 1 < s.audio.bufferSamples.toNat) ∧
      (s.audio.bufferSamples.toNat ≤ 2 ^ 63 - 1 → ∃ text, s.toText lib = .ok text ∧
        ofText lib text = .ok s ∧
        ∀ removed, ofText lib (eraseKeys removed text) = .ok (s.without removed))) ∧
    ∀ e text, s.check = .error e → s.toText lib = .ok text →
      ofText lib text = .error (.invalid e) := by
  have herror := toText_eq_error_iff s hlib (by decide)
  have hall (text : String) (htext : s.toText lib = .ok text) : ofText lib text =
      match s.check with
      | .ok _ => .ok s
      | .error e => .error (.invalid e) := by
    have hread := ofText_eraseKeys (fun _ => false) s hlib htext
    rwa [Toml.eraseKeys_none] at hread
  refine ⟨fun hvalid => ⟨herror, fun hfits => ?_⟩, fun e text hinvalid htext => ?_⟩
  · cases htext : s.toText lib with
    | error e => exact absurd hfits (Nat.not_le.mpr ((herror e).mp htext).2)
    | ok text =>
      refine ⟨text, rfl, ?_, fun removed => ?_⟩
      · rw [hall text htext, hvalid]
      · rw [ofText_eraseKeys removed s hlib htext, check_without removed s hvalid]
  · rw [hall text htext, hinvalid]

/-- The largest numbers that can be written, with a key removed, and settings without a rate. -/
theorem round_trip_largest :
    let lib := Toml.library (2 ^ 63 - 1)
    let s : Settings := { region := .pal, audio := ⟨0xFFFFFFFF, 0xFFFFFFFF, 0x7FFFFFFFFFFFFFFF⟩ }
    let t : Settings := { region := .pal, audio := { sampleRate := 0 } }
    lib.Faithful (2 ^ 63 - 1) ∧
      (s.check = .ok () ∧ ∃ text, s.toText lib = .ok text ∧ ofText lib text = .ok s ∧
        ofText lib (eraseKeys (· == ["audio", "cycle_length"]) text) =
          .ok { s with audio := { s.audio with cycleLength := 10000 } }) ∧
      t.check = .error .sampleRate ∧ ∃ text, t.toText lib = .ok text ∧
        ofText lib text = .error (.invalid .sampleRate) := by
  intro lib s t
  have hlib : lib.Faithful (2 ^ 63 - 1) := Toml.faithful_library _
  have hs : s.check = .ok () := rfl
  have ht : t.check = .error .sampleRate := rfl
  obtain ⟨text, htext, hback, hremoved⟩ := ((round_trip hlib s).1 hs).2 (by decide)
  obtain ⟨text', htext'⟩ : ∃ text', t.toText lib = .ok text' := ⟨_, rfl⟩
  exact ⟨hlib, ⟨hs, text, htext, hback, hremoved _⟩, ht, text', htext',
    (round_trip hlib t).2 _ _ ht htext'⟩

end Famicom.Settings
