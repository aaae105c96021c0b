import Microweb.Proofs.Heads
import Microweb.Proofs.Polls
import Microweb.Proofs.Scope

/-!
The responses that a connection can carry: the page for what is not there, a file, the pages of a
script, or the frames of a socket. Which of them it is can be read off the bytes alone. The pages of
a script are those that it returns in the course of what becomes of its interpreter
(`Interpreter.Returned`).
-/

namespace Microweb

open Relation (ReflTransGen)

/-! ### Pages of a script -/

namespace Interpreter

variable {I : Interpreter} {around : I.State → I.State → Prop} {origin s s' : I.State}
  {path : String} {pages : List String} {x : I.Script}

/-- One thing that becomes of an interpreter: something is asked of it, or it changes besides. -/
inductive Changes (I : Interpreter) (around : I.State → I.State → Prop) (s : I.State) :
    I.State → Prop
  | asked {s' : I.State} (hm : I.Moves (fun _ => True) (fun _ => True) True s s') :
    Changes I around s s'
  | besides {s' : I.State} (hs : around s s') : Changes I around s s'

/-- **What becomes of a script** in the course of what becomes of its interpreter from a state on. It
is loaded by a path, with the parameters of a request, and later it is called for one page more, any
number of times; meanwhile anything else may become of the interpreter. The pages are those that it
has returned until now, the first first. -/
inductive Returned (I : Interpreter) (around : I.State → I.State → Prop) (origin : I.State)
    (path : String) : List String → I.Script → I.State → Prop
  | load {s s' : I.State} {x : I.Script} (hs : ReflTransGen (I.Changes around) origin s) (q : Query)
    (heq : I.load path (I.setQuery q s) = (.ok x, s')) : Returned I around origin path [] x s'
  | call {pages : List String} {x x' : I.Script} {page : String} {s s' : I.State}
    (h : Returned I around origin path pages x s) (heq : I.call x s = ((.ok (some page), x'), s')) :
    Returned I around origin path (pages ++ [page]) x' s'
  | meanwhile {pages : List String} {x : I.Script} {s s' : I.State}
    (h : Returned I around origin path pages x s) (hs : I.Changes around s s') :
    Returned I around origin path pages x s'

/-- Some script has returned those pages until now. -/
def Returns (I : Interpreter) (around : I.State → I.State → Prop) (origin now : I.State)
    (path : String) (pages : List String) : Prop :=
  ∃ x, I.Returned around origin path pages x now

theorem Moves.changes {scripts frames : String → Prop} {streams : Prop}
    (hm : I.Moves scripts frames streams s s') : I.Changes around s s' := by
  cases hm with
  | load q hp => exact .asked (.load q trivial)
  | call x hs => exact .asked (.call x trivial)
  | release x => exact .asked (.release x)
  | collect => exact .asked .collect
  | serveFrame payload hp => exact .asked (.serveFrame payload trivial)

/-- What was returned stays so. -/
theorem Returned.since (h : I.Returned around origin path pages x s)
    (hs : ReflTransGen (I.Changes around) s s') : I.Returned around origin path pages x s' := by
  induction hs with
  | refl => exact h
  | tail _ hlast ih => exact ih.meanwhile hlast

theorem Returns.since (h : I.Returns around origin s path pages)
    (hs : ReflTransGen (I.Changes around) s s') : I.Returns around origin s' path pages := by
  obtain ⟨x, hx⟩ := h
  exact ⟨x, hx.since hs⟩

end Interpreter

/-- What lies between two hosts, as the interpreter sees it. -/
theorem Scope.Reaches.changes {P : Platform} {a : Scope P} {g h : Host P}
    {around : P.interpreter.State → P.interpreter.State → Prop} (hr : a.Reaches g h) :
    ReflTransGen (P.interpreter.Changes around) g.interpreter h.interpreter :=
  hr.interpreter.lift id fun _ _ hm => hm.changes

/-! ### Forms -/

/-- What a connection can carry. -/
inductive Form where
  | nothing
  /-- The page for what is not there. -/
  | page
  | file
  | script
  /-- A socket of messages. -/
  | socket
deriving DecidableEq, Repr

variable {content? : String → Option Bytes} {returns returns' : String → List String → Prop}
  {room : Nat}

/-- **What was written to a connection**, write by write: nothing; the page for what is not there;
a head with a length, and what a file starts with; a head without a length, and pages that a script
returns, each cut to the room there is; or the answer to a handshake, and frames. -/
inductive Written (content? : String → Option Bytes) (returns : String → List String → Prop)
    (room : Nat) : Form → List Bytes → Prop
  | nothing : Written content? returns room .nothing []
  | page (url : String) (uptime freeHeap : Nat) :
    Written content? returns room .page [Reply.notFound url uptime freeHeap]
  | file {path : String} {content : Bytes} (size : Nat) {pieces : List Bytes}
    (hcontent : content? path = some content) (hpieces : pieces.flatten <+: content) :
    Written content? returns room .file
      (Reply.contentHead (Content.typeOf (Content.suffix? path)) (some size) :: pieces)
  | script {path : String} {pages : List String} (hpages : returns path pages) :
    Written content? returns room .script
      (Reply.contentHead (Content.typeOf (Content.suffix? path)) none ::
        pages.map fun page => (Utf8.encode page).take room)
  | socket (accept : String) {frames : List Bytes}
    (hframes : ∀ f ∈ frames, Frame.FromServer room f) :
    Written content? returns room .socket (Reply.switchingProtocols accept :: frames)

/-- What was written stays of its form while more pages are returned. -/
theorem Written.mono {form : Form} {writes : List Bytes}
    (h : Written content? returns room form writes)
    (hreturns : ∀ path pages, returns path pages → returns' path pages) :
    Written content? returns' room form writes := by
  cases h with
  | nothing => exact .nothing
  | page url uptime freeHeap => exact .page url uptime freeHeap
  | file size hcontent hpieces => exact .file size hcontent hpieces
  | script hpages => exact .script (hreturns _ _ hpages)
  | socket accept hframes => exact .socket accept hframes

theorem Written.since {I : Interpreter} {around : I.State → I.State → Prop} {origin s s' : I.State}
    {form : Form} {writes : List Bytes}
    (h : Written content? (I.Returns around origin s) room form writes)
    (hs : ReflTransGen (I.Changes around) s s') :
    Written content? (I.Returns around origin s') room form writes :=
  h.mono fun _ _ hreturns => hreturns.since hs

/-! ### Reading the form off the bytes -/

namespace Form

/-- The bytes from the first line feed on. -/
def fromLineEnd (bs : Bytes) : Bytes := bs.dropWhile (· != Byte.lf)

/-- The form of a response. The first digit of its status tells most forms apart, and the name of
the field after the media type tells a file from the pages of a script. -/
def read (bs : Bytes) : Form :=
  match (bs.drop 9).head? with
  | none => nothing
  | some digit =>
    if digit = 0x34 then page
    else if digit = 0x31 then socket
    else if ((fromLineEnd ((fromLineEnd bs).drop 1)).drop 4).head? = some 0x74 then file
    else script

theorem fromLineEnd_append {line : Bytes} (hline : Byte.lf ∉ line) (rest : Bytes) :
    fromLineEnd (line ++ Byte.lf :: rest) = Byte.lf :: rest := by
  unfold fromLineEnd
  rw [List.dropWhile_append_of_pos]
  · rw [List.dropWhile_cons_of_neg (by simp)]
  · intro b hb
    have hne : b ≠ Byte.lf := by
      rintro rfl
      exact hline hb
    simpa using hne

end Form

/-! ### Heads -/

namespace Reply

/-- The media types that there are. -/
def mediaTypes : List String := Content.defaultType :: Content.types.map Prod.snd

theorem typeOf_mem (suffix : Option String) : Content.typeOf suffix ∈ mediaTypes := by
  unfold Content.typeOf mediaTypes
  cases heq : suffix.bind fun s => List.lookup s Content.types with
  | none => exact List.mem_cons_self
  | some type =>
    obtain ⟨s, -, hlookup⟩ := Option.bind_eq_some_iff.mp heq
    obtain ⟨before, after, heq, -⟩ := List.lookup_eq_some_iff.mp hlookup
    refine List.mem_cons_of_mem _ (List.mem_map.mpr ⟨(s, type), ?_, rfl⟩)
    rw [heq]
    simp

/-- The first line of a head for content, up to the line feed. -/
def okLine : Bytes := Utf8.encode "HTTP/1.1 200 OK" ++ [Byte.cr]

/-- The line for a media type, up to the line feed. -/
def typeLine (type : String) : Bytes := Utf8.encode ("Content-type" ++ ": " ++ type) ++ [Byte.cr]

theorem lf_notMem_typeLine {type : String} (h : type ∈ mediaTypes) : Byte.lf ∉ typeLine type := by
  revert type
  decide +kernel

/-- **A head for content**: the line of the status, that of the media type, and then the name of
the next field. -/
theorem bytes_contentHead (type name value : String) (fields : List (String × String)) :
    ∃ rest, (ReplyHead.mk .ok (("Content-type", type) :: (name, value) :: fields)).bytes =
      okLine ++ Byte.lf :: (typeLine type ++ Byte.lf :: (Utf8.encode name ++ rest)) := by
  have hstatus : Utf8.encode (ReplyHead.mk .ok []).statusLine = okLine ++ [Byte.lf] := by
    decide +kernel
  refine ⟨Utf8.encode (": " ++ value) ++ [Byte.cr, Byte.lf] ++
    fields.flatMap (fun f => Utf8.encode (ReplyHead.fieldLine f)) ++
      Utf8.encode ReplyHead.lineEnd, ?_⟩
  show Utf8.encode (ReplyHead.mk .ok []).statusLine ++
    (("Content-type", type) :: (name, value) :: fields).flatMap
      (fun f => Utf8.encode (ReplyHead.fieldLine f)) ++ Utf8.encode ReplyHead.lineEnd = _
  rw [hstatus, List.flatMap_cons, List.flatMap_cons, ReplyHead.encode_fieldLine,
    ReplyHead.encode_fieldLine]
  simp only [typeLine, ReplyHead.fieldText, Utf8.encode_append, List.append_assoc, List.cons_append,
    List.nil_append]

theorem contentHead_some (type : String) (n : Nat) : ∃ rest, contentHead type (some n) =
    okLine ++ Byte.lf :: (typeLine type ++ Byte.lf :: (Utf8.encode "Content-Length" ++ rest)) :=
  bytes_contentHead type "Content-Length" (Decimal.text n) [("Connection", "close")]

theorem contentHead_none (type : String) : ∃ rest, contentHead type none =
    okLine ++ Byte.lf :: (typeLine type ++ Byte.lf :: (Utf8.encode "Connection" ++ rest)) :=
  bytes_contentHead type "Connection" "close" []

theorem isPrefix_statusLine (status : Status) (fields : List (String × String)) :
    Utf8.encode (ReplyHead.mk status []).statusLine <+: (ReplyHead.mk status fields).bytes := by
  unfold ReplyHead.bytes
  rw [List.append_assoc]
  exact List.prefix_append _ _

theorem isPrefix_notFound (url : String) (uptime freeHeap : Nat) :
    Utf8.encode "HTTP/1.1 404" <+: notFound url uptime freeHeap := by
  have hstatus : Utf8.encode "HTTP/1.1 404" <+:
      Utf8.encode (ReplyHead.mk .notFound []).statusLine := by decide +kernel
  have hhead := isPrefix_statusLine .notFound [("Content-type", Content.defaultType),
    ("Content-Length", Decimal.text (Utf8.encode (notFoundBody url uptime freeHeap)).length),
    ("Connection", "close")]
  exact (hstatus.trans hhead).trans (List.prefix_append _ _)

theorem isPrefix_switchingProtocols (accept : String) :
    Utf8.encode "HTTP/1.1 101" <+: switchingProtocols accept := by
  have hstatus : Utf8.encode "HTTP/1.1 101" <+:
      Utf8.encode (ReplyHead.mk .switchingProtocols []).statusLine := by decide +kernel
  exact hstatus.trans (isPrefix_statusLine .switchingProtocols [("Upgrade", "websocket"),
    ("Connection", "Upgrade"), ("Sec-WebSocket-Accept", accept)])

end Reply

/-! ### Forms apart -/

namespace Form

open Reply

/-- A head for content is read by the name of the field after the media type. -/
theorem read_content {type : String} (htype : type ∈ mediaTypes) (a b c d : UInt8) (rest : Bytes) :
    read (okLine ++ Byte.lf :: (typeLine type ++ Byte.lf :: a :: b :: c :: d :: rest)) =
      if d = 0x74 then file else script := by
  have hok : Byte.lf ∉ okLine := by decide +kernel
  have hdigit : ∀ bs, ((okLine ++ bs).drop 9).head? = some 0x32 := by
    intro bs
    have hline : okLine = Utf8.encode "HTTP/1.1 " ++ 0x32 :: Utf8.encode "00 OK\r" := by
      decide +kernel
    rw [hline]
    rfl
  unfold read
  rw [hdigit, fromLineEnd_append hok, List.drop_one, List.tail_cons,
    fromLineEnd_append (lf_notMem_typeLine htype)]
  simp

/-- **The form of a response can be read off its bytes.** -/
theorem read_of_written {form : Form} {writes : List Bytes}
    (h : Written content? returns room form writes) : read writes.flatten = form := by
  cases h with
  | nothing => rfl
  | page url uptime freeHeap =>
    obtain ⟨rest, heq⟩ := isPrefix_notFound url uptime freeHeap
    have hname : Utf8.encode "HTTP/1.1 404" = Utf8.encode "HTTP/1.1 " ++ [0x34, 0x30, 0x34] := by
      decide +kernel
    rw [List.flatten_singleton, ← heq, hname]
    rfl
  | @file path content size pieces hcontent hpieces =>
    obtain ⟨rest, heq⟩ := contentHead_some (Content.typeOf (Content.suffix? path)) size
    have hname : Utf8.encode "Content-Length" =
        0x43 :: 0x6F :: 0x6E :: 0x74 :: Utf8.encode "ent-Length" := by decide +kernel
    rw [List.flatten_cons, heq, hname]
    simp only [List.append_assoc, List.cons_append]
    exact read_content (typeOf_mem _) _ _ _ _ _
  | @script path pages hpages =>
    obtain ⟨rest, heq⟩ := contentHead_none (Content.typeOf (Content.suffix? path))
    have hname : Utf8.encode "Connection" =
        0x43 :: 0x6F :: 0x6E :: 0x6E :: Utf8.encode "ection" := by decide +kernel
    rw [List.flatten_cons, heq, hname]
    simp only [List.append_assoc, List.cons_append]
    exact read_content (typeOf_mem _) _ _ _ _ _
  | socket accept hframes =>
    obtain ⟨rest, heq⟩ := isPrefix_switchingProtocols accept
    have hname : Utf8.encode "HTTP/1.1 101" = Utf8.encode "HTTP/1.1 " ++ [0x31, 0x30, 0x31] := by
      decide +kernel
    rw [List.flatten_cons, ← heq, hname]
    rfl

end Form

end Microweb
