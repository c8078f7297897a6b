import ChainFetch.Fetch.State
import ChainFetch.Proofs.Instant.Text
import ChainFetch.Proofs.Json.Records
/-!
States as they are stored. Main statement: `decode_encode_toWords_of_dated`, a state comes back with
its frequencies cut to whole milliseconds and is written then as it was before.
-/

namespace ChainFetch

open Json (Lossless encode decode? bind_record? bind_read? ofFields_ne_null)

instance : Lossless HeightCursor where
  decode?_encode c := by
    unfold decode? encode instCodecHeightCursor
    dsimp only
    rw [bind_record?]
    exact bind_read? (by simp) (by simp) (Json.decode?_encode c.height) rfl
  encode_ne_null _ := ofFields_ne_null _

instance : Lossless SignatureCursor where
  decode?_encode c := by
    unfold decode? encode instCodecSignatureCursor
    dsimp only
    rw [bind_record?]
    refine bind_read? (by simp) (by simp) (Json.decode?_encode c.signature) ?_
    refine bind_read? (by simp) (by simp) (Json.decode?_encode c.slot) ?_
    exact bind_read? (by simp) (by simp) (Json.decode?_encode c.timestamp) rfl
  encode_ne_null _ := ofFields_ne_null _

namespace Fetch

/-- The time of the latest tick is read back from its text. -/
def Job.Dated (j : Job) : Prop := ∀ t, j.lastRun = some t → Instant.read? t.text = some t

theorem Job.dated_iff {j : Job} : j.Dated ↔ ∀ t, j.lastRun = some t → t.Shown :=
  forall₂_congr fun _ _ => Instant.read?_text_eq_some_iff

def Job.toWord (j : Job) : Job := { j with frequency := j.frequency.toWord }

theorem Job.decode?_encode {j : Job} (dated : j.Dated) : decode? (encode j) = some j.toWord := by
  have lastRun : decode? (encode j.lastRun) = some (j.lastRun.map id) :=
    Json.decode?_encode_option (fun t => by simp [encode]) dated
  rw [Option.map_id_fun, id] at lastRun
  unfold decode? encode instCodec
  dsimp only
  rw [bind_record?]
  refine bind_read? (by simp) (by simp) (Duration.decode?_encode j.frequency) ?_
  refine bind_read? (by simp) (by simp) lastRun ?_
  refine bind_read? (by simp) (by simp) (Json.decode?_encode j.runs) ?_
  refine bind_read? (by simp) (by simp) (Json.decode?_encode j.complete) ?_
  exact bind_read? (by simp) (by simp) (Json.decode?_encode j.fallback) rfl

theorem decode?_encode_jobs {jobs : Both Job} (dated : ∀ d, (jobs.get d).Dated) :
    decode? (encode jobs) = some (jobs.map Job.toWord) := by
  have forward : jobs.forward.Dated := dated .forward
  have backward : jobs.backward.Dated := dated .backward
  unfold decode? encode instCodecBothJob
  dsimp only
  rw [bind_record?]
  refine bind_read? (by simp) (by simp) (Job.decode?_encode forward) ?_
  exact bind_read? (by simp) (by simp) (Job.decode?_encode backward) rfl

variable {γ : Type} [Json.Codec γ] [Lossless γ]

theorem decode?_encode_cursors (cursors : Both (Option γ)) :
    decode? (encode cursors) = some cursors := by
  have cursor : ∀ c : Option γ, decode? (encode c) = some c := by
    intro c
    have reads := Json.decode?_encode_option (f := id) (o := c) Json.encode_ne_null
      fun c _ => Json.decode?_encode c
    rwa [Option.map_id_fun, id] at reads
  unfold decode? encode instCodecBothOption
  dsimp only
  rw [bind_record?]
  refine bind_read? (by simp) (by simp) (cursor cursors.forward) ?_
  exact bind_read? (by simp) (by simp) (cursor cursors.backward) rfl

namespace State

def toWords (s : State γ) : State γ := { s with jobs := s.jobs.map Job.toWord }

theorem decode?_encode {s : State γ} (dated : ∀ d, (s.job d).Dated) :
    decode? (encode s) = some s.toWords := by
  unfold decode? encode instCodecState
  dsimp only
  rw [bind_record?]
  refine bind_read? (by simp) (by simp) (Json.decode?_encode s.id) ?_
  refine bind_read? (by simp) (by simp) (decode?_encode_jobs dated) ?_
  exact bind_read? (by simp) (by simp) (decode?_encode_cursors s.cursors) rfl

omit [Json.Codec γ] [Lossless γ] in
theorem job_toWords (s : State γ) (d : Direction) : s.toWords.job d = (s.job d).toWord := by
  cases d <;> rfl

omit [Lossless γ] in
theorem encode_toWords (s : State γ) : encode s.toWords = encode s := by
  have job : ∀ j : Job, encode j.toWord = encode j := by
    intro j
    unfold encode Job.instCodec Job.toWord
    dsimp only
    rw [Duration.encode_toWord]
  have jobs : encode s.toWords.jobs = encode s.jobs := by
    unfold encode instCodecBothJob
    dsimp only
    rw [toWords, Both.map, job, job]
  unfold encode instCodecState
  dsimp only
  rw [jobs]
  rfl

omit [Json.Codec γ] [Lossless γ] in
theorem toWords_eq_self_iff {s : State γ} :
    s.toWords = s ↔ ∀ d, ∃ n < UInt64.size, (s.job d).frequency = .ofMillis n := by
  have job : ∀ j : Job, j.toWord = j ↔ ∃ n < UInt64.size, j.frequency = .ofMillis n := by
    intro j
    have cut : j.toWord = j ↔ j.frequency.toWord = j.frequency :=
      ⟨fun same => congrArg Job.frequency same, fun same => by rw [Job.toWord, same]⟩
    rw [cut, Duration.toWord_eq_self_iff]
    constructor
    · rintro ⟨n, whole⟩
      exact ⟨n.toNat, n.toNat_lt, whole⟩
    · rintro ⟨n, small, whole⟩
      exact ⟨.ofNat n, by rw [whole, UInt64.toNat_ofNat_of_lt' small]⟩
  constructor
  · intro same d
    rw [← job, ← job_toWords, same]
  · intro whole
    have forward := (job _).mpr (whole .forward)
    have backward := (job _).mpr (whole .backward)
    obtain ⟨id, ⟨f, b⟩, cursors⟩ := s
    simp only [State.job, Both.get] at forward backward
    simp only [toWords, Both.map, forward, backward]

/-- What writing a state and reading it back makes of it. -/
structure Survives (s : State γ) : Prop where
  reads : decode? (encode s) = some s.toWords
  rewrites : (decode? (encode s) : Option (State γ)).map encode = some (encode s)
  whole : decode? (encode s) = some s ↔ ∀ d, ∃ n < UInt64.size, (s.job d).frequency = .ofMillis n

theorem survives_of_dated {s : State γ} (dated : ∀ d, (s.job d).Dated) : s.Survives where
  reads := decode?_encode dated
  rewrites := by rw [decode?_encode dated, Option.map_some, encode_toWords]
  whole := by rw [decode?_encode dated, Option.some_inj, toWords_eq_self_iff]

/-- A state of either kind of cursor whose times are read back comes back with its frequencies cut
to whole milliseconds in 64 bits, is written again as it was, and is the same state just if both
frequencies were such numbers. -/
theorem decode_encode_toWords_of_dated :
    (∀ s : State HeightCursor, (∀ d, (s.job d).Dated) → s.Survives) ∧
      ∀ s : State SignatureCursor, (∀ d, (s.job d).Dated) → s.Survives :=
  ⟨fun _ => survives_of_dated, fun _ => survives_of_dated⟩

/-- The state of a fetcher of blocks: one frequency is a millisecond and a half, the other a
millisecond more than 64 bits hold. -/
def blocks : State HeightCursor where
  id := "blocks"
  jobs := ⟨{ frequency := ⟨1500000⟩, lastRun := Instant.mk? 1700000000 123000000, runs := 7 },
    { frequency := .ofMillis (UInt64.size + 1), complete := true }⟩
  cursors := ⟨some ⟨120⟩, none⟩

/-- The state of a fetcher of signatures, with whole milliseconds and a tick in a leap second. -/
def signatures : State SignatureCursor where
  id := "signatures"
  jobs := ⟨{ frequency := .ofSecs 2, lastRun := Instant.mk? 1483228799 1500000000 },
    { frequency := .ofMillis 500, lastRun := some .epoch, fallback := true }⟩
  cursors := ⟨none, some ⟨"5sig", 7, -1⟩⟩

theorem decode_encode_toWords_of_dated_blocks :
    (∀ d, (blocks.job d).Dated) ∧ (∀ d, (signatures.job d).Dated) ∧
      blocks.Survives ∧ signatures.Survives ∧
      (blocks.toWords.job .forward).frequency = .ofMillis 1 ∧
      (blocks.toWords.job .backward).frequency = .ofMillis 1 ∧
      signatures.toWords = signatures := by
  have dated (d : Direction) : (blocks.job d).Dated := by
    rw [Job.dated_iff]
    rintro t seen
    cases d
    · cases seen
      decide
    · cases seen
  have dated' (d : Direction) : (signatures.job d).Dated := by
    rw [Job.dated_iff]
    rintro t seen
    cases d
    · cases seen
      decide
    · cases seen
      decide
  exact ⟨dated, dated', decode_encode_toWords_of_dated.1 blocks dated,
    decode_encode_toWords_of_dated.2 signatures dated', by decide, by decide, by decide⟩

end State
end Fetch
end ChainFetch
