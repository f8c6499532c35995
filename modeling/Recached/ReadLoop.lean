import Recached.Standing
import Recached.Streaming

/-!
# Reading from a TCP socket

The handler of a TCP connection appends what it reads to a buffer and takes whole frames off its front.
After an unfinished frame it does not look at the buffer again until the buffer holds as many bytes as the
parser said the frame needs.  However the bytes are cut into reads, the frames are handled as soon as they
have arrived, up to the one that closes the connection.
-/

namespace Recached

open Text

/-- The most that may wait in the buffer of a connection. -/
def maxTcpReadBufferBytes : ℕ := 64 * 1024 * 1024

/-- The handler of a connection with the bytes that it has not taken yet and the number of bytes to wait
for; also the values it has taken so far, and the replies. -/
structure TcpReader where
  session : Session
  buf : Bytes := []
  need : ℕ := 0
  dispatched : List Value := []
  replies : List Value := []

namespace TcpReader

variable (cfg : ServerConfig) (moments : ℕ → ℕ → Moment)

/-- No frame can be taken: an unfinished one is waited for, anything else is thrown away. -/
def fails (e : ParseError) (r : TcpReader) : TcpReader :=
  if e.isIncomplete then { r with need := e.needed }
  else { r with buf := [], need := 0, replies := r.replies ++ protocolError .tcp e }

/-- The first frame of the buffer is taken and handled. -/
def takes (together : Bool) (value : Value) (consumed : ℕ) (r : TcpReader) : TcpReader :=
  let (replies, session) := r.session.handleFrame cfg (moments r.dispatched.length) together r.buf
  { r with
    session
    buf := r.buf.drop consumed
    dispatched := r.dispatched ++ [value]
    replies := r.replies ++ replies }

theorem takes_shorter {together : Bool} {value : Value} {consumed : ℕ} {r : TcpReader}
    (parsed : Value.parse r.buf = .ok (value, consumed)) :
    (r.takes cfg moments together value consumed).buf.length < r.buf.length := by
  obtain ⟨least, most, -⟩ := Value.streams_parse.done trivial parsed
  show (r.buf.drop consumed).length < r.buf.length
  rw [List.length_drop]
  omega

/-- Take frames off the buffer as long as there are any and the connection is open. -/
def drain (together : Bool) (r : TcpReader) : TcpReader :=
  match Value.frameLen r.buf with
  | .error e => r.fails e
  | .ok _ =>
    match _parsed : Value.parse r.buf with
    | .error e => r.fails e
    | .ok (value, consumed) =>
      let r' := r.takes cfg moments together value consumed
      if r'.session.conn.closed then r' else drain true r'
termination_by r.buf.length
decreasing_by exact takes_shorter cfg moments _parsed

def close (r : TcpReader) : TcpReader :=
  { r with session := { r.session with conn := { r.session.conn with closed := true } } }

/-- Some bytes are read from the socket; none at its end. -/
def read (r : TcpReader) (chunk : Bytes) : TcpReader :=
  if r.session.conn.closed then r
  else if chunk.isEmpty then r.close
  else if maxTcpReadBufferBytes < r.buf.length + chunk.length then r.close
  else
    let r := { r with buf := r.buf ++ chunk }
    if r.buf.length < r.need then r else r.drain cfg moments false

end TcpReader

/-! ## What should be handled -/

/-- A frame with the value that it is read as. -/
abbrev TcpFrame := Bytes × Value

def TcpFrame.Whole (f : TcpFrame) : Prop := Value.parse f.1 = .ok (f.2, f.1.length)

/-- The bytes of frames that follow each other. -/
def bytesOf (frames : List TcpFrame) : Bytes := (frames.map Prod.fst).flatten

/-- The values of the frames whose last byte is among the first `n`. -/
def arrived : List TcpFrame → ℕ → List Value
  | [], _ => []
  | f :: fs, n => if f.1.length ≤ n then f.2 :: arrived fs (n - f.1.length) else []

/-- The failed logins after a frame, unless the frame closes the connection. -/
def failuresAfter (cfg : ServerConfig) (authFailures : ℕ) (value : Value) : Option ℕ :=
  match fromValue value with
  | .ok .quit => none
  | .ok (.auth pwd) =>
    match cfg.password with
    | none => some authFailures
    | some password =>
      if pwd = password then some 0
      else if maxAuthFailures ≤ authFailures + 1 then none
      else some (authFailures + 1)
  | _ => some authFailures

/-- The frames up to the first that closes the connection. -/
def upToClosing (cfg : ServerConfig) : ℕ → List Value → List Value
  | _, [] => []
  | authFailures, v :: vs =>
    v :: match failuresAfter cfg authFailures v with
      | some authFailures => upToClosing cfg authFailures vs
      | none => []

/-! ## One frame -/

variable {cfg : ServerConfig}

/-- The failed logins on a connection that is open. -/
def Connection.failures (conn : Connection) : Option ℕ := if conn.closed then none else some conn.authFailures

theorem Connection.SameStanding.failures {conn conn' : Connection} (same : conn.SameStanding conn') :
    conn'.failures = conn.failures := by
  rw [Connection.failures, Connection.failures, same.closed, same.authFailures]

theorem failures_of_open {conn : Connection} (opened : conn.closed = false) :
    conn.failures = some conn.authFailures := by
  rw [Connection.failures, opened]
  rfl

theorem failures_processAuth {conn : Connection} (opened : conn.closed = false) (pwd : String) :
    (processAuth cfg pwd conn).2.failures =
      match cfg.password with
      | none => some conn.authFailures
      | some password =>
        if pwd = password then some 0
        else if maxAuthFailures ≤ conn.authFailures + 1 then none
        else some (conn.authFailures + 1) := by
  unfold processAuth
  cases cfg.password with
  | none => exact failures_of_open opened
  | some password =>
    dsimp only
    split_ifs
    · exact failures_of_open opened
    · rfl
    · exact failures_of_open opened

theorem failures_handleFrame {s : Session} (opened : s.conn.closed = false) {raw : Bytes} {v : Value} {n : ℕ}
    (parsed : Value.parse raw = .ok (v, n)) (moments : ℕ → Moment) (together : Bool) :
    (s.handleFrame cfg moments together raw).2.conn.failures = failuresAfter cfg s.conn.authFailures v := by
  have woken : (s.wake together).conn.closed = false := opened
  have stays {s' : Session} (keeps : (s.wake together).Keeps s') :
      s'.conn.failures = some s.conn.authFailures :=
    keeps.failures.trans (failures_of_open woken)
  unfold Session.handleFrame failuresAfter
  rw [parsed]
  dsimp only
  cases meant : fromValue v with
  | error e => exact stays (Session.keeps_poison _)
  | ok cmd =>
    cases cmd
    case quit => rfl
    case auth pwd => exact failures_processAuth woken pwd
    case hello requested =>
      obtain ⟨-, closed, authFailures, -⟩ :=
        Session.keeps_hello cfg (s.wake together) moments requested
      dsimp only at closed authFailures ⊢
      rw [Connection.failures, closed, authFailures]
      exact failures_of_open woken
    all_goals exact stays (Session.keeps_parsed moments ⟨nofun, nofun, nofun⟩)

/-! ## The buffer -/

theorem bytesOf_cons (f : TcpFrame) (fs : List TcpFrame) : bytesOf (f :: fs) = f.1 ++ bytesOf fs := rfl

theorem TcpFrame.Whole.pos {f : TcpFrame} (whole : f.Whole) : 0 < f.1.length := by
  have := (Value.streams_parse.done trivial whole).1
  omega

/-- The start of a frame is unfinished, and needs no more than the frame has. -/
theorem TcpFrame.Whole.parse_start {f : TcpFrame} (whole : f.Whole) {b : Bytes} (start : b <+: f.1)
    (unfinished : b.length < f.1.length) :
    ∃ needed, Value.parse b = .error (.incomplete needed) ∧ needed ≤ f.1.length := by
  obtain ⟨tail, same⟩ := start
  have later : Value.parse (b ++ tail) = .ok (f.2, f.1.length) := by rw [same]; exact whole
  cases read : Value.parse b with
  | ok r =>
    obtain ⟨-, most, stable⟩ := Value.streams_parse.done trivial read
    rw [stable tail] at later
    have same : r.2 = f.1.length := congrArg Prod.snd (Except.ok.inj later)
    omega
  | error e =>
    cases e with
    | incomplete needed => exact ⟨needed, rfl, (Value.streams_parse.more trivial read).2 tail _ _ later⟩
    | _ =>
      rw [Value.streams_parse.hard trivial read rfl tail] at later
      cases later

/-- What the reader should have taken when it has received `n` bytes of the frames. -/
def due (cfg : ServerConfig) (authFailures : ℕ) (frames : List TcpFrame) (n : ℕ) : List Value :=
  upToClosing cfg authFailures (arrived frames n)

theorem due_unfinished (authFailures : ℕ) {frames : List TcpFrame} {n : ℕ}
    (unfinished : ∀ f ∈ frames.head?, n < f.1.length) : due cfg authFailures frames n = [] := by
  cases frames with
  | nil => rfl
  | cons f fs => rw [due, arrived, if_neg (not_le.mpr (unfinished f rfl)), upToClosing]

theorem due_cons (authFailures : ℕ) (f : TcpFrame) (fs : List TcpFrame) (n : ℕ) :
    due cfg authFailures (f :: fs) (f.1.length + n) =
      f.2 :: match failuresAfter cfg authFailures f.2 with
        | some authFailures => due cfg authFailures fs n
        | none => [] := by
  rw [due, arrived, if_pos (Nat.le_add_right _ _), Nat.add_sub_cancel_left, upToClosing]
  rfl

namespace TcpReader

variable {moments : ℕ → ℕ → Moment}

/-- The reader is open and holds an unfinished piece of the first of these frames, and is going to look at
the buffer when that frame is there. -/
structure Awaits (r : TcpReader) (rest : List TcpFrame) : Prop where
  opened : r.session.conn.closed = false
  whole : ∀ f ∈ rest, f.Whole
  unfinished : ∀ f ∈ rest.head?, r.buf.length < f.1.length
  gate : ∀ f ∈ rest.head?, r.need ≤ f.1.length

theorem drain_unfinished {r : TcpReader} {needed : ℕ} (together : Bool)
    (read : Value.parse r.buf = .error (.incomplete needed)) :
    r.drain cfg moments together = { r with need := needed } := by
  rw [drain, Value.frameLen_eq, read]
  rfl

theorem drain_frame {r : TcpReader} {v : Value} {n : ℕ} (together : Bool)
    (read : Value.parse r.buf = .ok (v, n)) :
    r.drain cfg moments together =
      let r' := r.takes cfg moments together v n
      if r'.session.conn.closed then r' else r'.drain cfg moments true := by
  rw [drain, Value.frameLen_eq, read]
  rfl

variable (cfg moments)

/-- An unfinished frame is waited for. -/
theorem drain_waits {frames : List TcpFrame} (whole : ∀ f ∈ frames, f.Whole) {r : TcpReader}
    (opened : r.session.conn.closed = false) {needed : ℕ} (together : Bool)
    (read : Value.parse r.buf = .error (.incomplete needed))
    (unfinished : ∀ f ∈ frames.head?, r.buf.length < f.1.length)
    (gate : ∀ f ∈ frames.head?, needed ≤ f.1.length) :
    let r' := r.drain cfg moments together
    r'.Awaits frames ∧ r'.buf = r.buf ∧ r'.dispatched = r.dispatched ∧ r'.session = r.session := by
  rw [drain_unfinished together read]
  exact ⟨⟨opened, whole, unfinished, gate⟩, rfl, rfl, rfl⟩

/-- The reader takes the frames that are there, and stops at an unfinished one or when it is closed. -/
theorem drain_spec {frames : List TcpFrame} (whole : ∀ f ∈ frames, f.Whole) {r : TcpReader}
    (opened : r.session.conn.closed = false) (partly : r.buf <+: bytesOf frames) (together : Bool) :
    let r' := r.drain cfg moments together
    (r'.session.conn.closed = true ∧ ∀ n, r.buf.length ≤ n →
      r'.dispatched = r.dispatched ++ due cfg r.session.conn.authFailures frames n) ∨
    ∃ rest, r'.Awaits rest ∧ r'.buf.length ≤ r.buf.length ∧
      ∀ tail, r.buf ++ tail <+: bytesOf frames → r'.buf ++ tail <+: bytesOf rest ∧
        r.dispatched ++ due cfg r.session.conn.authFailures frames (r.buf ++ tail).length =
          r'.dispatched ++ due cfg r'.session.conn.authFailures rest (r'.buf ++ tail).length := by
  induction frames generalizing r together with
  | nil =>
    have empty : r.buf = [] := List.prefix_nil.mp partly
    have read : Value.parse r.buf = .error (.incomplete 1) := by rw [empty]; rfl
    obtain ⟨awaits, buf, dispatched, session⟩ := drain_waits cfg moments whole opened together read nofun nofun
    refine .inr ⟨[], awaits, by rw [buf], fun tail => ?_⟩
    rw [buf, dispatched, session]
    exact fun start => ⟨start, rfl⟩
  | cons f fs ih =>
    obtain ⟨first, others⟩ := List.forall_mem_cons.mp whole
    rw [bytesOf_cons] at partly
    by_cases there : f.1.length ≤ r.buf.length
    · -- the first frame has arrived
      obtain ⟨b, split⟩ : ∃ b, r.buf = f.1 ++ b := by
        obtain ⟨b, same⟩ := List.prefix_of_prefix_length_le (List.prefix_append f.1 (bytesOf fs)) partly there
        exact ⟨b, same.symm⟩
      have read : Value.parse r.buf = .ok (f.2, f.1.length) := by
        rw [split]
        exact (Value.streams_parse.done trivial first).2.2 b
      set r₁ := r.takes cfg moments together f.2 f.1.length with taken
      have buf : r₁.buf = b := by
        show r.buf.drop f.1.length = b
        rw [split, List.drop_left]
      have standing : r₁.session.conn.failures = failuresAfter cfg r.session.conn.authFailures f.2 :=
        failures_handleFrame opened read _ _
      have dispatched : r₁.dispatched = r.dispatched ++ [f.2] := rfl
      rw [drain_frame together read, ← taken]
      have shorter : b.length ≤ r.buf.length := by rw [split, List.length_append]; omega
      by_cases closed : r₁.session.conn.closed = true
      · -- the frame closes the connection
        rw [if_pos closed]
        have last : failuresAfter cfg r.session.conn.authFailures f.2 = none := by
          rw [← standing, Connection.failures, if_pos closed]
        refine .inl ⟨closed, fun n enough => ?_⟩
        obtain ⟨k, rfl⟩ := Nat.exists_eq_add_of_le (there.trans enough)
        rw [due_cons, last, dispatched]
      · rw [if_neg closed]
        rw [Bool.not_eq_true] at closed
        have next : failuresAfter cfg r.session.conn.authFailures f.2 = some r₁.session.conn.authFailures := by
          rw [← standing, failures_of_open closed]
        have step (n : ℕ) : r.dispatched ++ due cfg r.session.conn.authFailures (f :: fs) (f.1.length + n) =
            r₁.dispatched ++ due cfg r₁.session.conn.authFailures fs n := by
          rw [due_cons, next, dispatched, List.append_assoc]
          rfl
        have rest : r₁.buf <+: bytesOf fs := by
          rw [buf]
          rw [split] at partly
          exact (List.prefix_append_right_inj _).mp partly
        obtain ⟨closed, all⟩ | ⟨rest, awaits, less, later⟩ := ih others closed rest true
        · refine .inl ⟨closed, fun n enough => ?_⟩
          obtain ⟨k, rfl⟩ := Nat.exists_eq_add_of_le (there.trans enough)
          rw [step, all k (by rw [buf]; rw [split, List.length_append] at enough; omega)]
        · refine .inr ⟨rest, awaits, less.trans (by rwa [buf]), fun tail start => ?_⟩
          rw [split, List.append_assoc, bytesOf_cons] at start
          obtain ⟨on, same⟩ := later tail (by rw [buf]; exact (List.prefix_append_right_inj _).mp start)
          refine ⟨on, ?_⟩
          rw [← same, split, List.append_assoc, List.length_append, step, buf]
    · -- it is still to be finished
      rw [not_le] at there
      have start : r.buf <+: f.1 :=
        List.prefix_of_prefix_length_le partly (List.prefix_append _ _) there.le
      obtain ⟨needed, read, enough⟩ := first.parse_start start there
      obtain ⟨awaits, buf, dispatched, session⟩ := drain_waits cfg moments whole opened together read
        (by rintro f' ⟨⟩; exact there) (by rintro f' ⟨⟩; exact enough)
      refine .inr ⟨f :: fs, awaits, by rw [buf], fun tail => ?_⟩
      rw [buf, dispatched, session]
      exact fun start => ⟨start, rfl⟩

/-- Nothing is read on a closed connection. -/
theorem foldl_read_closed {r : TcpReader} (closed : r.session.conn.closed = true) (chunks : List Bytes) :
    chunks.foldl (read cfg moments) r = r := by
  induction chunks with
  | nil => rfl
  | cons chunk chunks ih =>
    have same : read cfg moments r chunk = r := if_pos closed
    rw [List.foldl_cons, same, ih]

/-- Some bytes are read: the reader looks at its buffer, or knows that the frame is unfinished. -/
theorem read_open {r : TcpReader} (opened : r.session.conn.closed = false) {chunk : Bytes} (some : chunk ≠ [])
    (cap : r.buf.length + chunk.length ≤ maxTcpReadBufferBytes) :
    read cfg moments r chunk =
      if (r.buf ++ chunk).length < r.need then { r with buf := r.buf ++ chunk }
      else { r with buf := r.buf ++ chunk }.drain cfg moments false := by
  have filled : ¬chunk.isEmpty = true := by simpa using some
  rw [read, if_neg (by simp [opened]), if_neg filled, if_neg (not_lt.mpr cap)]

/-- However the bytes are cut, the reader takes the frames that have arrived. -/
theorem dispatched_foldl_read {rest : List TcpFrame} {r : TcpReader} (awaits : r.Awaits rest)
    {chunks : List Bytes} (nonempty : ∀ chunk ∈ chunks, chunk ≠ [])
    (stream : r.buf ++ chunks.flatten <+: bytesOf rest)
    (cap : (r.buf ++ chunks.flatten).length ≤ maxTcpReadBufferBytes) :
    (chunks.foldl (read cfg moments) r).dispatched =
      r.dispatched ++ due cfg r.session.conn.authFailures rest (r.buf ++ chunks.flatten).length := by
  induction chunks generalizing rest r with
  | nil =>
    rw [List.flatten_nil, List.append_nil, due_unfinished _ awaits.unfinished, List.append_nil]
    rfl
  | cons chunk chunks ih =>
    obtain ⟨some, nonempty⟩ := List.forall_mem_cons.mp nonempty
    rw [List.flatten_cons, ← List.append_assoc] at stream cap ⊢
    have partly : r.buf ++ chunk <+: bytesOf rest := (List.prefix_append _ _).trans stream
    have room : r.buf.length + chunk.length ≤ maxTcpReadBufferBytes := by
      rw [List.length_append, List.length_append] at cap
      omega
    rw [List.foldl_cons, read_open cfg moments awaits.opened some room]
    split_ifs with short
    · -- the gate stays shut, and the frame is still unfinished
      have awaits' : Awaits { r with buf := r.buf ++ chunk } rest :=
        ⟨awaits.opened, awaits.whole, fun f hf => short.trans_le (awaits.gate f hf), awaits.gate⟩
      exact ih awaits' nonempty stream cap
    · obtain ⟨closed, all⟩ | ⟨rest', awaits', less, later⟩ :=
        drain_spec cfg moments awaits.whole (r := { r with buf := r.buf ++ chunk }) awaits.opened partly false
      · rw [foldl_read_closed cfg moments closed]
        exact all _ (List.prefix_append _ _).length_le
      · obtain ⟨on, same⟩ := later chunks.flatten stream
        refine (ih awaits' nonempty on ?_).trans same.symm
        rw [List.length_append] at cap ⊢
        exact (Nat.add_le_add_right less _).trans cap

end TcpReader

/-- The frames of a connection are dispatched in order, each as soon as its last byte has arrived, however
their bytes are cut into reads; the first frame that closes the connection is the last. -/
theorem segmentation_independent (cfg : ServerConfig) (moments : ℕ → ℕ → Moment) (s : Session)
    (opened : s.conn.closed = false) {frames : List TcpFrame} (whole : ∀ f ∈ frames, f.Whole)
    {chunks : List Bytes} (nonempty : ∀ chunk ∈ chunks, chunk ≠ []) (split : chunks.flatten = bytesOf frames)
    (cap : (bytesOf frames).length ≤ maxTcpReadBufferBytes) (k : ℕ) :
    ((chunks.take k).foldl (TcpReader.read cfg moments) { session := s }).dispatched =
      upToClosing cfg s.conn.authFailures (arrived frames (chunks.take k).flatten.length) := by
  have start : TcpReader.Awaits { session := s } frames := by
    refine ⟨opened, whole, fun f hf => ?_, fun f _ => Nat.zero_le _⟩
    exact (whole f (List.mem_of_mem_head? hf)).pos
  have stream : (chunks.take k).flatten <+: bytesOf frames := by
    rw [← split]
    exact (List.take_prefix k chunks).flatten
  have all := TcpReader.dispatched_foldl_read cfg moments start
    (fun chunk h => nonempty chunk (List.mem_of_mem_take h)) stream (stream.length_le.trans cap)
  rw [all]
  rfl

/-- A client of the TCP port. -/
def tcpSession : Session where
  conn := { transport := .tcp, id := 1, authenticated := true }
  node := scopedSession.node

def frameOf (name : String) : TcpFrame := (request [name], arrayOf [bulk name])

/-- A frame in two reads, the second of which brings another frame. -/
theorem segmentation_independent_ping :
    let chunks := [(request ["PING"]).take 5, (request ["PING"]).drop 5 ++ request ["DBSIZE"]]
    (List.foldl (TcpReader.read .scoped fun _ => atStart) { session := tcpSession } (chunks.take 1)).dispatched =
        [] ∧
      (List.foldl (TcpReader.read .scoped fun _ => atStart) { session := tcpSession } (chunks.take 2)).dispatched =
        [arrayOf [bulk "PING"], arrayOf [bulk "DBSIZE"]] := by
  have whole : ∀ f ∈ [frameOf "PING", frameOf "DBSIZE"], f.Whole :=
    List.forall_mem_cons.mpr ⟨rfl, List.forall_mem_singleton.mpr rfl⟩
  have run := @segmentation_independent .scoped (fun _ => atStart) tcpSession rfl _ whole
    [(request ["PING"]).take 5, (request ["PING"]).drop 5 ++ request ["DBSIZE"]] (by decide) rfl (by decide)
  exact ⟨run 1, run 2⟩

/-- What is sent after `QUIT` is not dispatched. -/
theorem after_quit :
    let frames := [frameOf "QUIT", frameOf "PING"]
    (∀ f ∈ frames, f.Whole) ∧
      (TcpReader.read .scoped (fun _ => atStart) { session := tcpSession } (bytesOf frames)).dispatched ≠
        frames.map Prod.snd := by
  have whole : ∀ f ∈ [frameOf "QUIT", frameOf "PING"], f.Whole :=
    List.forall_mem_cons.mpr ⟨rfl, List.forall_mem_singleton.mpr rfl⟩
  refine ⟨whole, ?_⟩
  rw [TcpReader.read_open .scoped (fun _ => atStart) rfl (by decide) (by decide), if_neg (by decide),
    TcpReader.drain_frame false (v := (frameOf "QUIT").2) (n := (frameOf "QUIT").1.length) (by rfl)]
  dsimp only
  rw [if_pos (by rfl)]
  exact fun same => absurd (congrArg List.length same) (by decide)

end Recached
