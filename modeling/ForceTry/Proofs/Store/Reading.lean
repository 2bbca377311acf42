import ForceTry.Proofs.Settings.Range
import ForceTry.Proofs.Store.Places

/-!
# Opening files

A file opens as a text when its path leads to bytes that the system gives out, that are not too many, and
that the encoding reads.  Bytes that are no text in the encoding are reported; what else keeps an encoding
from reading them is not.
-/

namespace ForceTry
namespace Store

variable {host : Host} {s : Store} {settings : Settings} {p : Path} {codec : Codec} {before : Bytes}
  {old : Text} {e : Fault}

def Names (codecs : Codecs) (settings : Settings) (codec : Codec) : Prop :=
  ∃ name, encodingName settings.encoding = .ok name ∧ codecs.codec name = .ok codec

/-- The file of a path holds bytes that are given out and not more than the settings allow. -/
structure Opens (host : Host) (s : Store) (settings : Settings) (p : Path) (before : Bytes) : Prop where
  path : p.isBroken = false
  seen : s.look host.device p = .ok (.file before)
  bytes : s.fetch host.device .read p = .ok before
  size : exceeds before.length settings.maxFileSize = .ok false

/-- The file of a path opens as a text in the encoding of the settings. -/
structure Reads (host : Host) (s : Store) (settings : Settings) (p : Path) (codec : Codec)
    (before : Bytes) (old : Text) : Prop where
  opens : s.Opens host settings p before
  names : Names host.codecs settings codec
  text : codec.decode before = .ok old

/-- The encoding reads nothing for a reason that is not reported as the failure of one file. -/
inductive Unreadable (codecs : Codecs) (settings : Settings) (before : Bytes) : Fault → Prop
  | notText {name : Text} (hname : settings.encoding = .text name)
      (h : codecs.codec name = .error (.notText name)) :
      Unreadable codecs settings before (.noEncoding (.notText name))
  | refused {codec : Codec} {why : Text} (hnames : Names codecs settings codec)
      (h : codec.decode before = .error (.refused why)) : Unreadable codecs settings before (.codec why)

theorem read_of_opens (h : s.Opens host settings p before) : s.read p = .ok before :=
  (fetch_eq_ok.mp h.bytes).1

theorem readText_eq_ok {v : Value} :
    s.readText host v p = .ok old ↔ ∃ name, encodingName v = .ok name ∧ ∃ before,
      s.fetch host.device .read p = .ok before ∧ ∃ codec, host.codecs.codec name = .ok codec ∧
        codec.decode before = .ok old := by
  simp only [readText, bind_eq_ok, mapError_eq_ok]

theorem readText_eq_error {v : Value} :
    s.readText host v p = .error e ↔ encodingName v = .error e ∨ ∃ name, encodingName v = .ok name ∧
      ((∃ f, s.fetch host.device .read p = .error f ∧ .fileSystem f = e) ∨
        ∃ before, s.fetch host.device .read p = .ok before ∧
          ((∃ f, host.codecs.codec name = .error f ∧ Fault.ofName f = e) ∨
            ∃ codec, host.codecs.codec name = .ok codec ∧
              ∃ f, codec.decode before = .error f ∧ Fault.ofRead f = e)) := by
  simp only [readText, bind_eq_error, mapError_eq_ok, mapError_eq_error]

theorem opens_of_size {entry : Entry} (hpath : p.isBroken = false)
    (hentry : s.look host.device p = .ok entry)
    (hsize : exceeds (sizeOf entry) settings.maxFileSize = .ok false)
    (hbytes : s.fetch host.device .read p = .ok before) : s.Opens host settings p before := by
  have hfile := (fetch_eq_ok.mp hbytes).1
  rw [read_eq_ok, ← stat_eq_ok, (look_eq_ok.mp hentry).1] at hfile
  cases hfile
  exact ⟨hpath, hentry, hbytes, hsize⟩

theorem readSmall_of_opens (h : s.Opens host settings p before) :
    s.readSmall host settings p = (s.readText host settings.encoding p).map some := by
  rw [readSmall, h.path, h.seen]
  show (exceeds before.length settings.maxFileSize >>= fun large => _) = _
  rw [h.size]
  cases s.readText host settings.encoding p <;> rfl

theorem reads_of_readSmall (h : s.readSmall host settings p = .ok (some old)) :
    ∃ codec before, s.Reads host settings p codec before old := by
  rw [readSmall] at h
  split at h
  · cases h
  · next hpath =>
      simp only [bind_eq_ok, mapError_eq_ok] at h
      rcases h with ⟨entry, hentry, large, hsize, h⟩
      split at h
      · cases h
      · next hlarge =>
          rw [Bool.not_eq_true] at hpath hlarge
          rw [hlarge] at hsize
          rw [bind_eq_ok] at h
          rcases h with ⟨text, htext, h⟩
          cases h
          rcases readText_eq_ok.mp htext with ⟨name, hname, before, hbytes, codec, hcodec, hdecode⟩
          exact ⟨codec, before, opens_of_size hpath hentry hsize hbytes, ⟨name, hname, hcodec⟩, hdecode⟩

theorem readSmall_of_reads (h : s.Reads host settings p codec before old) :
    s.readSmall host settings p = .ok (some old) := by
  rcases h.names with ⟨name, hname, hcodec⟩
  rw [readSmall_of_opens h.opens,
    readText_eq_ok.mpr ⟨name, hname, before, h.opens.bytes, codec, hcodec, h.text⟩]
  rfl

/-!
# Files that cannot be opened
-/

theorem encodingName_of_inRange {codecs : Codecs} (hs : settings.InRange codecs) :
    ∃ name coding, settings.encoding = .text name ∧ encodingName settings.encoding = .ok name ∧
      codecs.lookup name = .ok coding := by
  rcases Settings.encoding_of_inRange hs with ⟨name, coding, hencoding, hcoding⟩
  have hnull : '\x00' ∉ name := by
    intro hnull
    rw [Codecs.lookup, if_pos hnull] at hcoding
    cases hcoding
  refine ⟨name, coding, hencoding, ?_, hcoding⟩
  rw [hencoding, encodingName, if_neg hnull]

/-- A name that is known can only fail to be one of an encoding of text. -/
theorem codec_of_lookup {codecs : Codecs} {name : Text} {coding : Coding} {f : NameFault}
    (hcoding : codecs.lookup name = .ok coding) (h : codecs.codec name = .error f) :
    f = .notText name := by
  rw [Codecs.codec, hcoding] at h
  cases coding with
  | text codec => cases h
  | binary =>
      cases h
      rfl

theorem error_of_readText (hs : settings.InRange host.codecs)
    (h : s.readText host settings.encoding p = .error e) :
    isReported e = true ∨ ∃ before, s.fetch host.device .read p = .ok before ∧
      Unreadable host.codecs settings before e := by
  rcases encodingName_of_inRange hs with ⟨name, coding, hencoding, hname, hcoding⟩
  rw [readText_eq_error, hname] at h
  rcases h with h | ⟨name', heq, h⟩
  · cases h
  cases heq
  rcases h with ⟨f, _, rfl⟩ | ⟨before, hbytes, h⟩
  · exact .inl rfl
  rcases h with ⟨f, hf, rfl⟩ | ⟨codec, hcodec, f, hf, rfl⟩
  · cases codec_of_lookup hcoding hf
    exact .inr ⟨before, hbytes, .notText hencoding hf⟩
  · cases f with
    | decode fault => exact .inl rfl
    | refused why => exact .inr ⟨before, hbytes, .refused ⟨name, hname, hcodec⟩ hf⟩

theorem error_of_readSmall (hs : settings.InRange host.codecs)
    (h : s.readSmall host settings p = .error e) :
    isReported e = true ∨
    (p.isBroken = true ∧ e = .badValue (Text.ofString "embedded null byte")) ∨
    ∃ before, s.Opens host settings p before ∧ Unreadable host.codecs settings before e := by
  rcases Settings.maxFileSize_of_inRange hs with ⟨n, hsize⟩
  rw [readSmall] at h
  split at h
  · next hpath =>
      cases h
      exact .inr (.inl ⟨hpath, rfl⟩)
  · next hpath =>
      rw [Bool.not_eq_true] at hpath
      simp only [bind_eq_error, mapError_eq_ok, mapError_eq_error] at h
      rcases h with ⟨f, _, rfl⟩ | ⟨entry, hentry, h | ⟨large, hlarge, h⟩⟩
      · exact .inl rfl
      · rw [hsize] at h
        cases h
      · split at h
        · cases h
        · next hfalse =>
            rw [Bool.not_eq_true] at hfalse
            rw [hfalse] at hlarge
            rcases bind_eq_error.mp h with h | ⟨text, _, h⟩
            · rcases error_of_readText hs h with hreported | ⟨before, hbytes, hunreadable⟩
              · exact .inl hreported
              · exact .inr (.inr ⟨before, opens_of_size hpath hentry hlarge hbytes, hunreadable⟩)
            · cases h

theorem readText_of_unreadable (hs : settings.InRange host.codecs)
    (hbytes : s.fetch host.device .read p = .ok before) (h : Unreadable host.codecs settings before e) :
    s.readText host settings.encoding p = .error e ∧ isReported e = false := by
  rw [readText_eq_error]
  cases h with
  | notText hencoding hnotText =>
      rcases encodingName_of_inRange hs with ⟨name, coding, hencoding', hname, hcoding⟩
      rw [hencoding] at hencoding'
      cases hencoding'
      exact ⟨.inr ⟨_, hname, .inr ⟨before, hbytes, .inl ⟨_, hnotText, rfl⟩⟩⟩, rfl⟩
  | refused hnames hdecode =>
      rcases hnames with ⟨name, hname, hcodec⟩
      exact ⟨.inr ⟨name, hname, .inr ⟨before, hbytes, .inr ⟨_, hcodec, _, hdecode, rfl⟩⟩⟩, rfl⟩

end Store
end ForceTry
