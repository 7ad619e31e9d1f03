import CarFi.Library.FileStore
import CarFi.Library.Transition
import CarFi.Uploader.Server

/-!
# The threads of the server

What the calls of a thread do to the file system, and the server: any number of connections,
each with its thread, whose calls interleave in any order.
-/
namespace CarFi.Uploader

open Library

namespace Server

/-- The machine of the server: its arguments, the digest function, how paths are resolved and
what running a command line can do. The directory `recv_dir` has no links in it. -/
structure Site where
  recvDir : Bytes
  tarDir : Bytes
  recv : Nat
  tar : Nat
  hexdigest : Bytes → Bytes
  walk : Bytes → Option Loc
  system : Bytes → Fs → Fs → Prop
  walk_name : ∀ name, IsFileName name → walk (join recvDir name) = some ⟨recv, name⟩

/-- A thread with the file it has open. -/
structure Thread where
  handler : Handler := {}
  writer : Option Writer := none

variable (site : Site)

def Thread.op (t : Thread) : Option Op :=
  t.handler.op site.recvDir site.tarDir site.hexdigest

def Thread.resume (t : Thread) (res : Res) : Thread :=
  { t with handler := t.handler.resume site.hexdigest res }

/-- The calls on an open file, with the bytes that they add to its buffer. -/
def fileData : Op → Option Bytes
  | .write chunk => some chunk
  | .flush | .closeFile => some []
  | _ => none

/-- The call `o` of a thread returns `res`. A `write` may pass any part of the buffer on, a
`flush` or `close` passes all of it on unless it raises. -/
inductive ThreadStep : Fs → Thread → Op → Res → Fs → Thread → Prop where
  | recv {fs t n tmp} (ho : t.op site = some (.recv n)) (hpos : 0 < n)
      (hlen : (tmp.length : Int) ≤ n) :
      ThreadStep fs t (.recv n) (.bytes tmp) fs (t.resume site (.bytes tmp))
  | openWrite {fs t path loc} (ho : t.op site = some (.openWrite path))
      (hloc : site.walk path = some loc) :
      ThreadStep fs t (.openWrite path) .done (fs.openTrunc loc).2
        { t.resume site .done with writer := some { file := (fs.openTrunc loc).1 } }
  | file {fs t o bs w res} (ho : t.op site = some o) (hbs : fileData o = some bs)
      (hw : t.writer = some w) (k : Nat) (hres : res = .done ∨ res = .raised)
      (hall : res = .done → o = .flush ∨ o = .closeFile → w.buf.length ≤ k) :
      ThreadStep fs t o res ((w.put bs).emitted k fs)
        { t.resume site res with
          writer := if o = .closeFile then none else some ((w.put bs).emit k) }
  | system {fs t command fs'} (ho : t.op site = some (.system command))
      (hrun : site.system command fs fs') :
      ThreadStep fs t (.system command) .done fs' (t.resume site .done)
  | send {fs t msg} (ho : t.op site = some (.send msg)) :
      ThreadStep fs t (.send msg) .done fs (t.resume site .done)
  | closeSocket {fs t} (ho : t.op site = some .closeSocket) :
      ThreadStep fs t .closeSocket .done fs (t.resume site .done)
  | raise {fs t o} (ho : t.op site = some o) (hbs : fileData o = none)
      (hsys : ∀ command, o ≠ .system command) :
      ThreadStep fs t o .raised fs (t.resume site .raised)

/-- The server: its files and the threads it has started. -/
structure State where
  fs : Fs
  threads : List Thread := []

inductive Event where
  | accept
  | call (i : Nat) (o : Op) (res : Res)

/-- A connection is accepted, or a call of a thread returns. -/
inductive Step : State → Event → State → Prop where
  | accept {s} : Step s .accept { s with threads := s.threads ++ [{}] }
  | call {s i t o res fs' t'} (ht : s.threads[i]? = some t)
      (hstep : ThreadStep site s.fs t o res fs' t') :
      Step s (.call i o res) { fs := fs', threads := s.threads.set i t' }

end Server

end CarFi.Uploader
