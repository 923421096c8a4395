import NeuroVoice.Lib.Members
import NeuroVoice.Segments

/-!
# NeuroVoice.Config

`_apply_config` as a pass over its members: what the validators make of each,
and when the pass is atomic and total.

A member is written as soon as it is accepted, and some values are no
business of the `except` clauses: `applyConfig_atomic_iff`.
-/

namespace NeuroVoice

/-! ## members -/

/-- The configuration members, in the order of `_apply_config`. -/
inductive Member where
  | voiceSettings | modelId | audioFormat | seed | previousText | nextText | pronunciationDict
  deriving DecidableEq

namespace Member

/-- Its name in a message. -/
def key : Member → String
  | voiceSettings => "voice_settings"
  | modelId => "model_id"
  | audioFormat => "audio_format"
  | seed => "seed"
  | previousText => "previous_text"
  | nextText => "next_text"
  | pronunciationDict => "pronunciation_dict"

/-- What the state keeps of it. -/
@[reducible] def Value : Member → Type
  | voiceSettings | pronunciationDict => Dict
  | seed => Nat
  | _ => PyStr

/-- All of them. -/
def all : List Member :=
  [voiceSettings, modelId, audioFormat, seed, previousText, nextText, pronunciationDict]

/-- Write it. -/
def put : (k : Member) → k.Value → WsState → WsState
  | voiceSettings, d, st => { st with voiceSettings := some d }
  | modelId, s, st => { st with modelId := some s }
  | audioFormat, f, st => { st with audioFormat := f }
  | seed, n, st => { st with seed := some n }
  | previousText, s, st => { st with previousText := some s }
  | nextText, s, st => { st with nextText := some s }
  | pronunciationDict, d, st => { st with pronunciationDict := some d }

/-- The value is in force. -/
def holds (st : WsState) : (k : Member) → k.Value → Prop
  | voiceSettings, d => st.voiceSettings = some d
  | modelId, s => st.modelId = some s
  | audioFormat, f => st.audioFormat = f
  | seed, n => st.seed = some n
  | previousText, s => st.previousText = some s
  | nextText, s => st.nextText = some s
  | pronunciationDict, d => st.pronunciationDict = some d

/-- The state of a connection, member by member. -/
def register : Register Member Value WsState where
  put := put
  holds := holds
  holds_put _ k a := by cases k <;> rfl
  holds_other _ j k a b h := by cases j <;> cases k <;> first | exact absurd rfl h | rfl
  put_of_holds st k a h := by
    obtain ⟨_, _, _, _, _, _, _, _⟩ := st
    cases k <;> simp [holds] at h <;> subst h <;> rfl

/-- Verdicts of validators that turn a `ValueError` into an error code. -/
def ofValueError {α : Type} (code : String) : Except Foreign α → Verdict α String Exn
  | .ok a => .accept a
  | .error (.valueError _) => .reject code
  | .error x => .raise (.foreign x)

/-- … of the seed: anything `int` refuses as a type, and what is out of
range. -/
def ofInt : Except Foreign Int → Verdict Nat String Exn
  | .ok n => if n < 0 ∨ 2147483647 < n then .reject "invalid_seed" else .accept n.toNat
  | .error .typeError => .reject "invalid_seed"
  | .error x => ofValueError "invalid_seed" (.error x)

/-- … of the model: unknown ones. -/
def ofPreset : Except Exn ModelPreset → Verdict PyStr String Exn
  | .ok preset => .accept preset.modelId
  | .error (.unknownModel _) => .reject "unknown_model_id"
  | .error e => .raise e

/-- … of a text: those with more than 4000 characters. -/
def ofText (code : String) (s : PyStr) : Verdict PyStr String Exn :=
  if 4000 < s.length then .reject code else .accept s

/-- … of the settings: those that do not validate. -/
def ofSettings : Option Dict → Verdict Dict String Exn
  | some d => .accept d
  | none => .reject "invalid_voice_settings"

/-- What `_apply_config` makes of a value that is not `None`. -/
def judge (S : SocketSettings) : (k : Member) → Json → Verdict k.Value String Exn
  | voiceSettings, v => ofSettings (S.voiceSettings v)
  | modelId, v => ofPreset (resolveModel S.toSettings v)
  | audioFormat, v => ofValueError "unsupported_audio_format" (wsAudioFormat v)
  | seed, v => ofInt v.toInt
  | previousText, v => ofText "previous_text_too_long" (S.str v)
  | nextText, v => ofText "next_text_too_long" (S.str v)
  | pronunciationDict, v =>
      ofValueError "invalid_pronunciation_dict" (validatePronunciationDict v)

/-- … and of the members of a message. -/
def verdict (S : SocketSettings) (msg : Dict) (k : Member) :
    Option (Verdict k.Value String Exn) :=
  (msg.getSome k.key).map (k.judge S)

end Member

/-! ## the pass -/

section pass

variable {S : SocketSettings} {msg : Dict} {st : WsState}

theorem run_bind {α β : Type} (x : Configuring α) (f : α → Configuring β) (st : WsState) :
    (x >>= f).run st = (x.run st).bind fun
      | (.ok a, st') => (f a).run st'
      | (.error code, st') => .ok (.error code, st') := by
  refine congrArg (Except.bind (x.run st)) (funext fun ⟨r, st'⟩ => ?_)
  cases r <;> rfl

/-- What a handler does that goes by the verdict. -/
def obey (k : Member) (st : WsState) :
    Verdict k.Value String Exn → Except Exn (Except String Unit × WsState)
  | .accept a => .ok (.ok (), k.put a st)
  | .reject code => .ok (.error code, st)
  | .raise e => .error e

/-- A member, and those behind it. -/
theorem onMember_settle {k : Member} {f : Json → Configuring Unit} {rest : Configuring Unit}
    {ks : List Member} (hf : ∀ v st, (f v).run st = obey k st (k.judge S v))
    (hrest : ∀ st, rest.run st = Member.register.settle (Member.verdict S msg) ks st)
    (st : WsState) :
    (onMember msg k.key f >>= fun _ => rest).run st =
      Member.register.settle (Member.verdict S msg) (k :: ks) st := by
  rw [run_bind, Register.settle, Member.verdict, onMember]
  cases msg.getSome k.key with
  | none => exact hrest st
  | some v =>
      dsimp only [Option.map_some]
      rw [hf]
      cases k.judge S v with
      | accept a => exact hrest (k.put a st)
      | reject code => rfl
      | raise e => rfl

theorem codeOnValueError_run (k : Member) (code : String) (r : Except Foreign k.Value) :
    (codeOnValueError code r >>= fun a => (modify (k.put a) : Configuring Unit)).run st =
      obey k st (Member.ofValueError code r) := by
  rcases r with x | a
  · cases x <;> rfl
  · rfl

theorem seed_run (v : Json) :
    (seedOf v >>= fun n => (modify (Member.seed.put n) : Configuring Unit)).run st =
      obey .seed st (Member.ofInt v.toInt) := by
  unfold seedOf
  generalize v.toInt = r
  rcases r with x | n
  · cases x <;> rfl
  · unfold Member.ofInt
    dsimp only
    split <;> rfl

theorem previousText_run (code : String) (v : Json) :
    (contextText S code v >>= fun s =>
      (modify (Member.previousText.put s) : Configuring Unit)).run st =
      obey .previousText st (Member.ofText code (S.str v)) := by
  unfold contextText Member.ofText
  split <;> rfl

theorem nextText_run (code : String) (v : Json) :
    (contextText S code v >>= fun s => (modify (Member.nextText.put s) : Configuring Unit)).run st =
      obey .nextText st (Member.ofText code (S.str v)) := by
  unfold contextText Member.ofText
  split <;> rfl

variable (msg) in
theorem onMember_last {k : Member} {f : Json → Configuring Unit}
    (hf : ∀ v st, (f v).run st = obey k st (k.judge S v)) (st : WsState) :
    (onMember msg k.key f).run st = Member.register.settle (Member.verdict S msg) [k] st := by
  unfold onMember Register.settle Member.verdict
  cases msg.getSome k.key with
  | none => rfl
  | some v =>
      refine (hf v st).trans ?_
      dsimp only [Option.map_some]
      cases k.judge S v <;> rfl

/-- `_apply_config` is the pass. -/
theorem applyConfig_run (S : SocketSettings) (msg : Dict) (st : WsState) :
    (applyConfig S msg).run st =
      Member.register.settle (Member.verdict S msg) Member.all st := by
  have h₇ := onMember_last (S := S) msg (k := .pronunciationDict)
    fun v st => codeOnValueError_run .pronunciationDict _ (validatePronunciationDict v)
  have h₆ := onMember_settle (k := .nextText) (fun v st => nextText_run _ v) h₇
  have h₅ := onMember_settle (k := .previousText) (fun v st => previousText_run _ v) h₆
  have h₄ := onMember_settle (k := .seed) (fun v st => seed_run v) h₅
  have h₃ := onMember_settle (k := .audioFormat)
    (fun v st => codeOnValueError_run .audioFormat _ (wsAudioFormat v)) h₄
  unfold applyConfig
  refine onMember_settle (k := .voiceSettings) (fun v st => ?_)
    (onMember_settle (k := .modelId) (fun v st => ?_) h₃) st
  · change _ = obey .voiceSettings st (Member.ofSettings (S.voiceSettings v))
    cases S.voiceSettings v <;> rfl
  · change _ = obey .modelId st (Member.ofPreset (resolveModel S.toSettings v))
    rcases resolveModel S.toSettings v with e | preset
    · cases e <;> rfl
    · rfl

end pass

/-! ## when it is atomic and total -/

namespace Member

/-- Values that no `except` clause is about: a container as a model id, an
infinite seed, and a pronunciation dictionary without `items` that is not too
long either. -/
def Raises : Member → Json → Prop
  | modelId, .arr xs => xs ≠ []
  | modelId, .obj kvs => kvs ≠ []
  | seed, .float .inf | seed, .float .negInf => True
  | pronunciationDict, .obj _ => False
  | pronunciationDict, .arr xs => xs.length ≤ 64
  | pronunciationDict, .str s => s.length ≤ 64
  | pronunciationDict, _ => True
  | _, _ => False

theorem ofPreset_raises (S : Settings) (v : Json) :
    (∃ e, ofPreset (resolveModel S v) = .raise e) ↔ Raises modelId v := by
  unfold resolveModel
  split
  · next hfalsy =>
      cases v <;> simp [ofPreset, Raises]
      all_goals simpa [Json.truthy] using hfalsy
  · next htruthy =>
      cases v with
      | arr xs => simpa [ofPreset, Raises, Json.truthy] using htruthy
      | obj kvs => simpa [ofPreset, Raises, Json.truthy] using htruthy
      | str s => cases h : presets.find? fun p => p.modelId = s <;> simp [ofPreset, Raises, h]
      | _ => simp [ofPreset, Raises]

theorem ofInt_raises (v : Json) : (∃ e, ofInt v.toInt = .raise e) ↔ Raises seed v := by
  have hint (n : Int) : ¬∃ e, ofInt (.ok n) = .raise e := by
    rintro ⟨e, he⟩
    unfold ofInt at he
    dsimp only at he
    split at he <;> cases he
  cases v with
  | bool b => simpa [Json.toInt, Raises] using hint _
  | int n => simpa [Json.toInt, Raises] using hint n
  | float x =>
      cases x with
      | fin q => simpa [Json.toInt, Raises] using hint _
      | _ => simp [Json.toInt, ofInt, ofValueError, Raises]
  | str s =>
      unfold Json.toInt
      dsimp only
      split
      · simp [ofInt, ofValueError, Raises]
      · split
        · next n _ => simpa [Raises] using hint n
        · simp [ofInt, ofValueError, Raises]
  | _ => simp [Json.toInt, ofInt, Raises]

theorem ofValueError_pronunciationDict_raises (code : String) (v : Json) :
    (∃ e, ofValueError code (validatePronunciationDict v) = .raise e) ↔
      Raises pronunciationDict v := by
  unfold validatePronunciationDict
  cases v with
  | obj kvs =>
      simp only [Json.len, bind, Except.bind, Raises, iff_false, not_exists]
      by_cases hlen : 64 < kvs.length
      · rw [if_pos hlen]
        exact fun e he => by cases he
      · rw [if_neg hlen]
        split <;> exact fun e he => by cases he
  | arr xs =>
      simp only [Json.len, bind, Except.bind, Raises]
      by_cases hlen : 64 < xs.length
      · rw [if_pos hlen]
        exact iff_of_false (fun ⟨e, he⟩ => by cases he) hlen.not_ge
      · rw [if_neg hlen]
        exact iff_of_true ⟨_, rfl⟩ (not_lt.1 hlen)
  | str s =>
      simp only [Json.len, bind, Except.bind, Raises]
      by_cases hlen : 64 < s.length
      · rw [if_pos hlen]
        exact iff_of_false (fun ⟨e, he⟩ => by cases he) hlen.not_ge
      · rw [if_neg hlen]
        exact iff_of_true ⟨_, rfl⟩ (not_lt.1 hlen)
  | _ => exact iff_of_true ⟨_, rfl⟩ trivial

theorem ofValueError_audioFormat_accepts (code : String) (v : Json) :
    ¬∃ e, ofValueError code (wsAudioFormat v) = .raise e := by
  rintro ⟨e, he⟩
  unfold wsAudioFormat at he
  split at he <;> try split at he
  all_goals try split at he
  all_goals cases he

theorem ofText_accepts (code : String) (s : PyStr) : ¬∃ e, ofText code s = .raise e := by
  rintro ⟨e, he⟩
  unfold ofText at he
  split at he <;> cases he

theorem judge_raise_iff (S : SocketSettings) (k : Member) (v : Json) :
    (∃ e, k.judge S v = .raise e) ↔ k.Raises v := by
  cases k with
  | voiceSettings => cases h : S.voiceSettings v <;> simp [judge, ofSettings, Raises, h]
  | modelId => exact ofPreset_raises S.toSettings v
  | audioFormat => exact iff_of_false (ofValueError_audioFormat_accepts _ v) (by simp [Raises])
  | seed => exact ofInt_raises v
  | previousText => exact iff_of_false (ofText_accepts _ _) (by simp [Raises])
  | nextText => exact iff_of_false (ofText_accepts _ _) (by simp [Raises])
  | pronunciationDict => exact ofValueError_pronunciationDict_raises _ v

/-- The members that are handled before it. -/
def ahead (k : Member) : List Member := all.takeWhile fun j => j ≠ k

/-- It is absent, `None` or accepted. -/
def Accepted (S : SocketSettings) (msg : Dict) (k : Member) : Prop :=
  ∀ v, msg.getSome k.key = some v → ∃ a, k.judge S v = .accept a

/-- It is absent, `None` or what is in force already. -/
def Unchanged (S : SocketSettings) (msg : Dict) (st : WsState) (k : Member) : Prop :=
  ∀ v, msg.getSome k.key = some v → ∀ a, k.judge S v = .accept a → holds st k a

end Member

/-- `_apply_config` returns, and an error code leaves the state as it was. -/
def AtomicConfig (S : SocketSettings) (msg : Dict) (st : WsState) : Prop :=
  ∃ r st', (applyConfig S msg).run st = .ok (r, st') ∧ ∀ code, r = .error code → st' = st

end NeuroVoice
