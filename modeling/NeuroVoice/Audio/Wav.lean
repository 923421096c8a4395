import NeuroVoice.Gateway
import NeuroVoice.Lib.Riff
import NeuroVoice.Yields

/-!
# NeuroVoice.Audio.Wav

The WAV bodies of the two synchronous surfaces.

`POST /v1/tts` collects the audio and wraps it (`pcm16_to_wav_bytes`), and
`POST /v1/tts/stream` sends a header with the largest sizes there are and then
every chunk as it comes (`_yield_wav`).  Both bodies are read back here by a
reader of RIFF files that knows neither: what a client hears of one result
stream is the same on both, but for the audio of attempts that were given up,
which a stream that has been sent cannot take back.
-/

namespace NeuroVoice

/-! ## writing -/

/-- The bytes of an ASCII literal. -/
def ascii (s : String) : List UInt8 := s.toList.map fun c => UInt8.ofNat c.toNat

/-- `struct.pack` of an unsigned number in `w` bytes. -/
def structPack (w : Nat) (n : Int) : Except Foreign (List UInt8) :=
  if 0 ≤ n ∧ n < 256 ^ w then .ok (Riff.littleEndian w n.toNat) else .error (.other "struct.error")

/-- The body of a format chunk: PCM with two bytes a sample. -/
def formatBody (channels sampleRate byteRate blockAlign : List UInt8) : List UInt8 :=
  Riff.littleEndian 2 1 ++ (channels ++ (sampleRate ++ (byteRate ++
    (blockAlign ++ Riff.littleEndian 2 16))))

/-- A header from its packed fields. -/
def headerOf (fileSize format dataSize : List UInt8) : List UInt8 :=
  ascii "RIFF" ++ (fileSize ++ (ascii "WAVE" ++ (Riff.announce (ascii "fmt ") 16 ++
    (format ++ (ascii "data" ++ dataSize)))))

/-- The header of a WAV file, for a file and data of these sizes. -/
def waveHeader (fileSize dataSize channels sampleRate : Int) : Except Foreign (List UInt8) := do
  let file ← structPack 4 fileSize
  let ch ← structPack 2 channels
  let rate ← structPack 4 sampleRate
  let byteRate ← structPack 4 (channels * sampleRate * 2)
  let blockAlign ← structPack 2 (channels * 2)
  let data ← structPack 4 dataSize
  return headerOf file (formatBody ch rate byteRate blockAlign) data

/-- `file.seek(pos)` and `file.write(new)`. -/
def overwrite (file : List UInt8) (pos : Nat) (new : List UInt8) : List UInt8 :=
  file.take pos ++ new ++ file.drop (pos + new.length)

/-- `pcm16_to_wav_bytes`, with `wave`'s writer: its header counts whole frames,
and is patched when there are bytes besides. -/
def pcm16ToWavBytes (pcm : Pcm) (sampleRate channels : Int) : Except Foreign (List UInt8) :=
  if channels < 1 ∨ sampleRate ≤ 0 then .error (.other "wave.Error")
  else do
    let whole : Int := pcm.length / (channels * 2) * (channels * 2)
    let header ← waveHeader (36 + whole) whole channels sampleRate
    if whole = pcm.length then return header ++ pcm
    else
      let file ← structPack 4 (36 + pcm.length)
      let data ← structPack 4 pcm.length
      return overwrite (overwrite (header ++ pcm) 4 file) 40 data

/-- `_yield_wav`: the header, and then what `_yield_pcm` yields. -/
def yieldWav (sampleRate : Int) (frames : List Pcm) : Except Foreign (List (List UInt8)) := do
  let header ← waveHeader 0xFFFFFFFF 0xFFFFFFFF 1 sampleRate
  return header :: frames

/-! ## reading -/

/-- What a player finds in a WAV file. -/
structure Waveform where
  channels : Nat
  sampleRate : Nat
  bits : Nat
  data : Pcm
  deriving DecidableEq

/-- The format of the file, if it is PCM, and as much of its data as is there. -/
def Waveform.read (file : List UInt8) : Option Waveform :=
  if file.take 4 = ascii "RIFF" ∧ (file.drop 8).take 4 = ascii "WAVE" then
    match Riff.find (ascii "fmt ") (file.drop 12), Riff.find (ascii "data") (file.drop 12) with
    | some format, some data =>
        if 16 ≤ format.length ∧ Riff.number (format.take 2) = 1 then
          some
            { channels := Riff.number ((format.drop 2).take 2)
              sampleRate := Riff.number ((format.drop 4).take 4)
              bits := Riff.number ((format.drop 14).take 2)
              data }
        else none
    | _, _ => none
  else none

/-- Mono, with two bytes a sample: what both surfaces send. -/
def mono16 (sampleRate : Nat) (data : Pcm) : Waveform where
  channels := 1
  sampleRate := sampleRate
  bits := 16
  data := data

/-! ## round trips -/

section roundTrips

open Riff

variable {file ch rate byteRate blockAlign data rest : List UInt8} {dataSize : Nat}

theorem structPack_ok {w n : Nat} (h : n < 256 ^ w) :
    structPack w n = .ok (littleEndian w n) := by
  unfold structPack
  rw [if_pos ⟨by omega, by exact_mod_cast h⟩]
  rfl

/-- The header is as long as the code says. -/
theorem length_headerOf {format : List UInt8} (hfile : file.length = 4)
    (hformat : format.length = 16) (hdata : data.length = 4) :
    (headerOf file format data).length = 44 := by
  simp [headerOf, announce, hfile, hformat, hdata, ascii]

theorem length_formatBody (hch : ch.length = 2) (hrate : rate.length = 4)
    (hbyte : byteRate.length = 4) (halign : blockAlign.length = 2) :
    (formatBody ch rate byteRate blockAlign).length = 16 := by
  simp [formatBody, hch, hrate, hbyte, halign]

/-- Its sizes can be patched where the code patches them. -/
theorem overwrite_headerOf {format file' data' : List UInt8} (hfile : file.length = 4)
    (hfile' : file'.length = 4) (hformat : format.length = 16) (hdata : data.length = 4)
    (hdata' : data'.length = 4) :
    overwrite (overwrite (headerOf file format data ++ rest) 4 file') 40 data' =
      headerOf file' format data' ++ rest := by
  have hmiddle : ∀ file : List UInt8, file.length = 4 →
      (ascii "RIFF" ++ (file ++ (ascii "WAVE" ++ (announce (ascii "fmt ") 16 ++
        (format ++ ascii "data"))))).length = 40 := by
    intro file hfile
    simp [announce, hfile, hformat, ascii]
  have hsplit : ∀ file data : List UInt8, headerOf file format data =
      (ascii "RIFF" ++ (file ++ (ascii "WAVE" ++ (announce (ascii "fmt ") 16 ++
        (format ++ ascii "data"))))) ++ data := by
    intro file data
    simp [headerOf]
  have hfirst : overwrite (headerOf file format data ++ rest) 4 file' =
      headerOf file' format data ++ rest := by
    have hriff : (ascii "RIFF").length = 4 := by decide
    rw [overwrite, hfile', headerOf, headerOf, List.append_assoc, List.append_assoc,
      List.take_left' hriff, ← List.drop_drop, List.drop_left' hriff, List.append_assoc,
      List.append_assoc, List.drop_left' hfile]
    simp
  have hfront := hmiddle file' hfile'
  rw [hfirst, hsplit, hsplit]
  generalize ascii "RIFF" ++ (file' ++ (ascii "WAVE" ++ (announce (ascii "fmt ") 16 ++
    (format ++ ascii "data")))) = front at hfront ⊢
  rw [overwrite, hdata', List.append_assoc front, List.take_left' hfront, ← List.drop_drop,
    List.drop_left' hfront, List.drop_left' hdata]

/-- **A header is read back**, with the data that is there. -/
theorem read_header {channels sampleRate : Nat} (hfile : file.length = 4)
    (hch : channels < 256 ^ 2) (hrate : sampleRate < 256 ^ 4) (hbyte : byteRate.length = 4)
    (halign : blockAlign.length = 2) (hsize : dataSize < 256 ^ 4) :
    Waveform.read (headerOf file (formatBody (littleEndian 2 channels) (littleEndian 4 sampleRate)
      byteRate blockAlign) (littleEndian 4 dataSize) ++ rest) =
      some { channels, sampleRate, bits := 16, data := rest.take dataSize } := by
  generalize hformat : formatBody (littleEndian 2 channels) (littleEndian 4 sampleRate)
    byteRate blockAlign = format
  have hlen : format.length = 16 := by
    rw [← hformat, length_formatBody] <;> simp [hbyte, halign]
  have hriff : (ascii "RIFF").length = 4 := by decide
  have hwave : (ascii "WAVE").length = 4 := by decide
  have htail : (headerOf file format (littleEndian 4 dataSize) ++ rest).drop 12 =
      announce (ascii "fmt ") 16 ++ (format ++ (announce (ascii "data") dataSize ++ rest)) := by
    have h8 : (ascii "RIFF" ++ (file ++ ascii "WAVE")).length = 12 := by simp [hfile, hriff, hwave]
    rw [show headerOf file format (littleEndian 4 dataSize) ++ rest =
      (ascii "RIFF" ++ (file ++ ascii "WAVE")) ++ (announce (ascii "fmt ") 16 ++
        (format ++ (announce (ascii "data") dataSize ++ rest))) by simp [headerOf, announce],
      List.drop_left' h8]
  have hhead : (headerOf file format (littleEndian 4 dataSize) ++ rest).take 4 = ascii "RIFF" := by
    rw [headerOf, List.append_assoc, List.take_left' hriff]
  have hform : ((headerOf file format (littleEndian 4 dataSize) ++ rest).drop 8).take 4 =
      ascii "WAVE" := by
    rw [headerOf, List.append_assoc, show 8 = 4 + 4 from rfl, ← List.drop_drop,
      List.drop_left' hriff, List.append_assoc, List.drop_left' hfile, List.append_assoc,
      List.take_left' hwave]
  have hfmt : find (ascii "fmt ") (announce (ascii "fmt ") 16 ++
      (format ++ (announce (ascii "data") dataSize ++ rest))) = some format := by
    rw [find_announce (by decide) (by decide), List.take_left' hlen]
  have hdata : find (ascii "data") (announce (ascii "fmt ") 16 ++
      (format ++ (announce (ascii "data") dataSize ++ rest))) = some (rest.take dataSize) := by
    rw [find_announce_of_ne (by decide) (by decide) (by decide), List.drop_left' hlen,
      find_announce (by decide) hsize]
  have hpcm : number (format.take 2) = 1 := by
    rw [← hformat, formatBody, List.take_left' (length_littleEndian 2 1)]
    decide
  have hchannels : (format.drop 2).take 2 = littleEndian 2 channels := by
    rw [← hformat, formatBody, List.drop_left' (length_littleEndian 2 1),
      List.take_left' (length_littleEndian 2 channels)]
  have hsampleRate : (format.drop 4).take 4 = littleEndian 4 sampleRate := by
    rw [← hformat, formatBody, show 4 = 2 + 2 from rfl, ← List.drop_drop,
      List.drop_left' (length_littleEndian 2 1), List.drop_left' (length_littleEndian 2 channels),
      List.take_left' (length_littleEndian 4 sampleRate)]
  have hbits : (format.drop 14).take 2 = littleEndian 2 16 := by
    have h14 : (littleEndian 2 1 ++ (littleEndian 2 channels ++ (littleEndian 4 sampleRate ++
        (byteRate ++ blockAlign)))).length = 14 := by simp [hbyte, halign]
    rw [← hformat, show formatBody (littleEndian 2 channels) (littleEndian 4 sampleRate) byteRate
      blockAlign = (littleEndian 2 1 ++ (littleEndian 2 channels ++ (littleEndian 4 sampleRate ++
        (byteRate ++ blockAlign)))) ++ littleEndian 2 16 by simp [formatBody],
      List.drop_left' h14]
    decide
  rw [Waveform.read, if_pos ⟨hhead, hform⟩, htail, hfmt, hdata]
  simp only [hlen, hpcm, hchannels, hsampleRate, hbits, le_refl, and_self, if_true,
    number_littleEndian hch, number_littleEndian hrate]
  rfl

end roundTrips

/-! ## what a client can read -/

section bodies

open Riff

variable {rate : Nat} {pcm : Pcm} {frames : List Pcm}

/-- A header of mono sound, for sizes that fit. -/
def monoHeader (rate fileSize dataSize : Nat) : List UInt8 :=
  headerOf (littleEndian 4 fileSize) (formatBody (littleEndian 2 1) (littleEndian 4 rate)
    (littleEndian 4 (rate * 2)) (littleEndian 2 2)) (littleEndian 4 dataSize)

theorem length_monoHeader (rate fileSize dataSize : Nat) :
    (monoHeader rate fileSize dataSize).length = 44 := by
  rw [monoHeader, length_headerOf] <;> simp [length_formatBody]

theorem waveHeader_ok {fileSize dataSize : Nat} (hfile : fileSize < 256 ^ 4)
    (hdata : dataSize < 256 ^ 4) (hrate : rate * 2 < 256 ^ 4) :
    waveHeader fileSize dataSize 1 rate = .ok (monoHeader rate fileSize dataSize) := by
  have hone : structPack 2 1 = .ok (littleEndian 2 1) := structPack_ok (w := 2) (n := 1) (by decide)
  have htwo : structPack 2 (1 * 2) = .ok (littleEndian 2 2) :=
    structPack_ok (w := 2) (n := 2) (by decide)
  have hbyte : structPack 4 (1 * rate * 2) = .ok (littleEndian 4 (rate * 2)) := by
    rw [show (1 * rate * 2 : Int) = ((rate * 2 : Nat) : Int) by push_cast; ring]
    exact structPack_ok hrate
  have hsample : structPack 4 rate = .ok (littleEndian 4 rate) := structPack_ok (by omega)
  simp only [waveHeader, structPack_ok hfile, structPack_ok hdata, hone, htwo, hbyte, hsample]
  rfl

theorem read_monoHeader {fileSize dataSize : Nat} (hdata : dataSize < 256 ^ 4)
    (hrate : rate * 2 < 256 ^ 4) (rest : List UInt8) :
    Waveform.read (monoHeader rate fileSize dataSize ++ rest) =
      some (mono16 rate (rest.take dataSize)) :=
  read_header (length_littleEndian ..) (by decide) (by omega) (length_littleEndian ..)
    (length_littleEndian ..) hdata

/-- The collected body, whether it is patched or not. -/
theorem pcm16ToWavBytes_eq (hrate : 0 < rate) (hrate' : rate * 2 < 256 ^ 4)
    (hlen : 36 + pcm.length < 256 ^ 4) :
    pcm16ToWavBytes pcm rate 1 = .ok (monoHeader rate (36 + pcm.length) pcm.length ++ pcm) := by
  have hwhole : (pcm.length : Int) / (1 * 2) * (1 * 2) = (pcm.length / 2 * 2 : Nat) := by omega
  have hfile (n : Nat) : (36 : Int) + n = (36 + n : Nat) := by omega
  have hfits : pcm.length / 2 * 2 ≤ pcm.length := Nat.div_mul_le_self ..
  have hfits' : 36 + pcm.length / 2 * 2 < 256 ^ 4 := (Nat.add_le_add_left hfits 36).trans_lt hlen
  have hsmall {n : Nat} (h : 36 + n < 256 ^ 4) : n < 256 ^ 4 := (Nat.le_add_left n 36).trans_lt h
  have hheader := waveHeader_ok hfits' (hsmall hfits') hrate'
  unfold pcm16ToWavBytes
  rw [if_neg (by omega)]
  have hbind {α β : Type} (a : α) (f : α → Except Foreign β) : (Except.ok a >>= f) = f a := rfl
  dsimp only
  rw [hwhole, hfile, hheader, hbind, hfile, structPack_ok hlen, structPack_ok (hsmall hlen), hbind,
    hbind]
  split
  · next heven =>
      rw [Nat.cast_inj] at heven
      rw [heven]
      rfl
  · rw [monoHeader, overwrite_headerOf] <;> simp [length_formatBody, monoHeader]
    rfl

/-- **The collected body** holds the audio it was made of. -/
theorem read_pcm16ToWavBytes (hrate : 0 < rate) (hrate' : rate * 2 < 256 ^ 4)
    (hlen : 36 + pcm.length < 256 ^ 4) :
    ∃ file, pcm16ToWavBytes pcm rate 1 = .ok file ∧ Waveform.read file = some (mono16 rate pcm) := by
  refine ⟨_, pcm16ToWavBytes_eq hrate hrate' hlen, ?_⟩
  rw [read_monoHeader ((Nat.le_add_left _ 36).trans_lt hlen) hrate', List.take_length]

/-- **The streamed body**, cut anywhere behind its header, holds the audio sent so far. -/
theorem read_yieldWav (hrate : rate * 2 < 256 ^ 4) :
    ∃ header, yieldWav rate frames = .ok (header :: frames) ∧ header.length = 44 ∧
      ∀ n, Waveform.read ((header :: frames).flatten.take (44 + n)) =
        some (mono16 rate ((frames.flatten.take n).take 0xFFFFFFFF)) := by
  refine ⟨monoHeader rate 0xFFFFFFFF 0xFFFFFFFF, ?_, length_monoHeader .., fun n => ?_⟩
  · have hheader := @waveHeader_ok rate 0xFFFFFFFF 0xFFFFFFFF (by decide) (by decide) hrate
    show (waveHeader 0xFFFFFFFF 0xFFFFFFFF 1 rate).bind (fun header => .ok (header :: frames)) = _
    rw [show waveHeader 0xFFFFFFFF 0xFFFFFFFF 1 rate = _ from hheader]
    rfl
  · rw [List.flatten_cons, ← length_monoHeader rate 0xFFFFFFFF 0xFFFFFFFF, List.take_length_add_append,
      read_monoHeader (by decide) hrate]

end bodies

/-! ## the audio of one result stream -/

/-- The audio of some results. -/
def audioOf (ys : List TtsResult) : Pcm := ys.flatMap TtsResult.pcmBytes

/-- The chunks of other attempts than the last one. -/
def givenUp (n : Int) (chunks : List TtsResult) : List TtsResult :=
  chunks.filter fun r => r.attempt ≠ n

section streams

variable {chunks ys : List TtsResult} {s : StreamEntries} {h : AwaitHistory} {rid : Uuid}
  {timeoutMs fuel : Nat} {n : Int}

theorem patient_yieldPcm : Patient yieldPcm := by
  intro frames r hr
  unfold yieldPcm at hr
  split at hr
  · next ht => exact ht
  · cases hr

/-- A terminal has no audio. -/
theorem consumed_yieldPcm (frames : List Pcm) (ys : List TtsResult) :
    consumed yieldPcm frames ys =
      frames ++ (ys.filter fun r => !r.isTerminal).map TtsResult.pcmBytes := by
  induction ys generalizing frames with
  | nil => simp [consumed]
  | cons r ys ih =>
      have hcons : consumed yieldPcm frames (r :: ys) =
          consumed yieldPcm (yieldPcm frames r).1 ys := rfl
      rw [hcons, ih]
      by_cases ht : r.isTerminal = true <;> simp [yieldPcm, ht]

theorem filter_of_not_ended (h : ¬Ended chunks) : (chunks.filter fun r => !r.isTerminal) = chunks := by
  rw [List.filter_eq_self]
  intro r hr
  by_contra ht
  exact h ⟨r, hr, by simpa using ht⟩

/-- More entries only add to what is yielded. -/
theorem yieldsOf_more {xs zs : List TtsResult} (h : xs <+: zs) :
    yieldsOf stale xs <+: yieldsOf stale zs := by
  obtain ⟨more, rfl⟩ := h
  rw [yieldsOf, yieldsOf, yieldsFrom_append]
  exact List.prefix_append _ _

/-- Attempts follow one another, so the last one's chunks are behind the others. -/
theorem givenUp_append (hadv : chunks.Pairwise fun a b => a.attempt ≤ b.attempt)
    (hlast : ∀ r ∈ chunks, r.attempt ≤ n) : givenUp n chunks ++ ofAttempt n chunks = chunks := by
  induction chunks with
  | nil => rfl
  | cons r chunks ih =>
      obtain ⟨hr, hadv⟩ := List.pairwise_cons.1 hadv
      have hrest : ∀ x ∈ chunks, x.attempt ≤ n := fun x hx => hlast x (List.mem_cons_of_mem _ hx)
      by_cases hn : r.attempt = n
      · have hall : ∀ x ∈ chunks, x.attempt = n := fun x hx =>
          le_antisymm (hrest x hx) (hn ▸ hr x hx)
        have hnone : givenUp n chunks = [] := by
          simpa [givenUp, List.filter_eq_nil_iff] using hall
        have hself : ofAttempt n chunks = chunks := by
          simpa [ofAttempt, List.filter_eq_self] using hall
        have hcons : givenUp n (r :: chunks) = givenUp n chunks := by simp [givenUp, hn]
        rw [hcons, hnone, List.nil_append]
        show ofAttempt n (r :: chunks) = r :: chunks
        rw [ofAttempt, List.filter_cons_of_pos (by simpa using hn)]
        exact congrArg _ hself
      · have h₁ : givenUp n (r :: chunks) = r :: givenUp n chunks := by simp [givenUp, hn]
        have h₂ : ofAttempt n (r :: chunks) = ofAttempt n chunks := by simp [ofAttempt, hn]
        rw [h₁, h₂, List.cons_append, ih hadv hrest]

/-- **The audio of a stream**: what is sent chunk by chunk is what is collected,
behind the audio of the attempts that were given up; a stream that stops early
has sent a beginning of it. -/
theorem streamed_audio {h' : AwaitHistory} {timeoutMs' fuel' n : Nat} {pcm : Pcm}
    {frames : List Pcm} {raised : Option Exn} {err : Option String} (hs : Served s h)
    (hs' : Served s h')
    (hsync : EndsE (collectPcmUntilFinal rid timeoutMs fuel) h (.ok (pcm, n, err)))
    (hstream : EndsE (consumeResultStream (fun frames chunk => pure (yieldPcm frames chunk)) rid
      timeoutMs' fuel' []) h' (.ok (frames, raised))) :
    ∃ chunks last, yieldsOf stale s.results = chunks ++ [last] ∧ last.isTerminal = true ∧
      frames.flatten <+: audioOf (givenUp last.attempt chunks) ++ pcm ∧
      (raised = none → frames.flatten = audioOf (givenUp last.attempt chunks) ++ pcm) := by
  obtain ⟨⟨e, hr⟩, -⟩ | ⟨chunks, last, hys, hchunks, hlast, hr⟩ := collect_ends hs hsync
  · cases hr
  cases hr
  have hadv : (chunks ++ [last]).Pairwise fun a b => a.attempt ≤ b.attempt :=
    hys ▸ yieldsFrom_advances
  have hall : audioOf (givenUp last.attempt chunks) ++ audioOf (ofAttempt last.attempt chunks) =
      audioOf chunks := by
    rw [audioOf, audioOf, ← List.flatMap_append, givenUp_append (List.pairwise_append.1 hadv).1
      fun r hr => (List.pairwise_append.1 hadv).2.2 r hr last List.mem_cons_self]
    rfl
  have hframes : ∀ ys, (consumed yieldPcm [] ys).flatten =
      audioOf (ys.filter fun r => !r.isTerminal) := by
    intro ys
    rw [consumed_yieldPcm, List.nil_append]
    rfl
  have hwhole : audioOf ((chunks ++ [last]).filter fun r => !r.isTerminal) = audioOf chunks := by
    rw [List.filter_append, filter_of_not_ended hchunks]
    simp [hlast]
  obtain ⟨e, eff, hr, -⟩ | ⟨raised, hr, hread, hend⟩ :=
    consumeResultStream_yields patient_yieldPcm hstream hs'
  · cases hr
  cases hr
  refine ⟨chunks, last, hys, hlast, ?_, fun hnone => ?_⟩
  · show _ <+: _ ++ audioOf (ofAttempt last.attempt chunks)
    rw [hall, hframes, ← hwhole, ← hys]
    obtain ⟨more, hmore⟩ := yieldsOf_more hread
    rw [← hmore, List.filter_append, audioOf, audioOf, List.flatMap_append]
    exact List.prefix_append _ _
  · show _ = _ ++ audioOf (ofAttempt last.attempt chunks)
    obtain ⟨hended, -⟩ := hend.resolve_right fun hd => hd.2.1 hnone
    rw [hall, hframes, ← hwhole, ← hys, yieldsOf_beginning hread hended]

end streams

/-- **The two WAV bodies of one result stream.** -/
theorem wav_bodies_agree {s : StreamEntries} {h h' : AwaitHistory} {rid : Uuid}
    {timeoutMs fuel timeoutMs' fuel' n rate : Nat} {pcm : Pcm} {frames : List Pcm}
    {raised : Option Exn} {err : Option String} (hs : Served s h) (hs' : Served s h')
    (hsync : EndsE (collectPcmUntilFinal rid timeoutMs fuel) h (.ok (pcm, n, err)))
    (hstream : EndsE (consumeResultStream (fun frames chunk => pure (yieldPcm frames chunk)) rid
      timeoutMs' fuel' []) h' (.ok (frames, raised)))
    (hrate : 0 < rate) (hrate' : rate * 2 < 256 ^ 4) (hlen : 36 + pcm.length < 256 ^ 4) :
    ∃ chunks last file header, yieldsOf stale s.results = chunks ++ [last] ∧
      pcm16ToWavBytes pcm rate 1 = .ok file ∧ yieldWav rate frames = .ok (header :: frames) ∧
      header.length = 44 ∧
      Waveform.read file = some (mono16 rate pcm) ∧
      (∀ k, ∃ heard, Waveform.read ((header :: frames).flatten.take (44 + k)) =
          some (mono16 rate heard) ∧ heard <+: audioOf (givenUp last.attempt chunks) ++ pcm) ∧
      (raised = none → Waveform.read (header :: frames).flatten =
        some (mono16 rate ((audioOf (givenUp last.attempt chunks) ++ pcm).take 0xFFFFFFFF))) := by
  obtain ⟨chunks, last, hys, -, hpre, heq⟩ := streamed_audio hs hs' hsync hstream
  obtain ⟨file, hfile, hread⟩ := read_pcm16ToWavBytes hrate hrate' hlen
  obtain ⟨header, hheader, hlen44, hcut⟩ := @read_yieldWav rate frames hrate'
  refine ⟨chunks, last, file, header, hys, hfile, hheader, hlen44, hread, fun k => ?_,
    fun hnone => ?_⟩
  · have hbound : ((frames.flatten.take k).take 0xFFFFFFFF) <+: frames.flatten.take k :=
      List.take_prefix _ _
    exact ⟨_, hcut k, (hbound.trans <| List.take_prefix _ _).trans hpre⟩
  · have hall := hcut frames.flatten.length
    have hend : (header :: frames).flatten.length ≤ 44 + frames.flatten.length := by
      rw [List.flatten_cons, List.length_append, hlen44]
    rwa [List.take_of_length_le hend, List.take_length, heq hnone] at hall

/-- The stream of the retry, read chunk by chunk. -/
theorem retried_streamed :
    EndsE (consumeResultStream (fun frames chunk => pure (yieldPcm frames chunk)) 7 30000 2 [])
      retriedRead (.ok ([[1], [2]], none)) :=
  ⟨_, _, rfl, _, _, rfl, _, _, rfl, _, _, rfl, _, _, rfl, _, _, rfl, rfl, rfl⟩

/-- A stream of two attempts: one file has the second attempt, the other one both.
-/
theorem wav_bodies_agree_retried : ∃ chunks last file header,
    yieldsOf stale retried.results = chunks ++ [last] ∧
      pcm16ToWavBytes [2] (16000 : Nat) 1 = .ok file ∧
      yieldWav (16000 : Nat) [[1], [2]] = .ok (header :: [[1], [2]]) ∧ header.length = 44 ∧
      Waveform.read file = some (mono16 16000 [2]) ∧
      Waveform.read (header :: [[1], [2]]).flatten =
        some (mono16 16000 ((audioOf (givenUp last.attempt chunks) ++ [2]).take 0xFFFFFFFF)) := by
  obtain ⟨chunks, last, file, header, hys, hfile, hheader, hlen, hread, -, hall⟩ :=
    wav_bodies_agree retried_served retried_served retried_collected retried_streamed
      (show 0 < 16000 by decide) (by decide) (by decide)
  exact ⟨chunks, last, file, header, hys, hfile, hheader, hlen, hread, hall rfl⟩

end NeuroVoice
