import CarFi.Uploader.Client
import CarFi.Uploader.Threads

/-!
# One upload over one connection

The client program and one thread of the server, joined by the two directions of a connection.
The bytes of a direction arrive in order and in any pieces. The connection can be cut at any
point, and then some of the bytes under way are lost.
-/
namespace CarFi.Uploader

open Library

/-- The calls that go to the connection. -/
def isSocketOp : Op → Bool
  | .connect | .recv _ | .send _ | .closeSocket => true
  | _ => false

/-- What a call does to the two directions `inp` and `out` as its program sees them. A `sendall`
that raises may have sent a part. -/
inductive Wires (inp out : Chan) : Op → Res → Chan → Chan → Prop where
  | recv {n tmp inp'} (h : inp.Recv n tmp inp') : Wires inp out (.recv n) (.bytes tmp) inp' out
  | recvRaised {n} : Wires inp out (.recv n) .raised inp out
  | connect {res} : Wires inp out .connect res inp out
  | send {msg} : Wires inp out (.send msg) .done inp (out.push msg)
  | sendRaised {msg} (k : Nat) : Wires inp out (.send msg) .raised inp (out.push (msg.take k))
  | closeSocket {res} : Wires inp out .closeSocket res inp out.close
  | other {o res} (h : isSocketOp o = false) : Wires inp out o res inp out

namespace Client

/-- What the client works on: the directory and name of the tarball, and what running a command
line can do to the tarball. -/
structure Setup where
  tarDir : Bytes
  tarName : Bytes
  system : Bytes → Option Bytes → Option Bytes → Prop

variable (c : Setup) (hexdigest : Bytes → Bytes)

/-- The call `o` of the client returns `res`. Its files are the tarball, if it is there, and the
position up to which it was read. -/
inductive UploadStep : Option Bytes → Nat → Upload → Op → Res → Option Bytes → Nat →
    Upload → Prop
    where
  | socket {tb pos u o res} (ho : u.op c.tarDir c.tarName hexdigest = some o)
      (hs : isSocketOp o = true)
        (hres : o = .connect ∨ o = .closeSocket → res = .done ∨ res = .raised) :
      UploadStep tb pos u o res tb pos (u.resume c.tarName hexdigest res)
  | getsize {bs pos u path} (ho : u.op c.tarDir c.tarName hexdigest = some (.getsize path)) :
      UploadStep (some bs) pos u (.getsize path) (.size bs.length) (some bs) pos
        (u.resume c.tarName hexdigest (.size bs.length))
  | openRead {bs pos u path} (ho : u.op c.tarDir c.tarName hexdigest = some (.openRead path)) :
      UploadStep (some bs) pos u (.openRead path) .done (some bs) 0
        (u.resume c.tarName hexdigest .done)
  | read {bs pos u n} (ho : u.op c.tarDir c.tarName hexdigest = some (.read n)) :
      UploadStep (some bs) pos u (.read n) (.bytes ((bs.drop pos).take n)) (some bs)
        (pos + ((bs.drop pos).take n).length)
        (u.resume c.tarName hexdigest (.bytes ((bs.drop pos).take n)))
  | system {tb tb' pos u command}
      (ho : u.op c.tarDir c.tarName hexdigest = some (.system command))
      (hrun : c.system command tb tb') :
      UploadStep tb pos u (.system command) .done tb' pos (u.resume c.tarName hexdigest .done)
  | closeFile {tb pos u} (ho : u.op c.tarDir c.tarName hexdigest = some .closeFile) :
      UploadStep tb pos u .closeFile .done tb pos (u.resume c.tarName hexdigest .done)
  | raise {tb pos u o} (ho : u.op c.tarDir c.tarName hexdigest = some o)
      (hs : isSocketOp o = false) (hsys : ∀ command, o ≠ .system command) :
      UploadStep tb pos u o .raised tb pos (u.resume c.tarName hexdigest .raised)

end Client

/-- Both ends and the connection: the client with its tarball, the files and the thread of the
server, and the bytes under way from the client (`up`) and to it (`down`). -/
structure Session where
  tarball : Option Bytes
  pos : Nat := 0
  upload : Client.Upload := {}
  up : Chan := {}
  down : Chan := {}
  fs : Fs
  thread : Server.Thread := {}

inductive SessionEvent where
  | client (o : Op) (res : Res)
  | server (o : Op) (res : Res)
  | cutUp (k : Nat)
  | cutDown (k : Nat)

/-- The tarball that is uploaded and the two machines. -/
structure Transfer where
  client : Client.Setup
  site : Server.Site
  content : Bytes
  fileName : IsFileName client.tarName

variable (x : Transfer)

inductive SessionStep : Session → SessionEvent → Session → Prop where
  | client {s o res tarball pos upload up down}
      (hstep : Client.UploadStep x.client x.site.hexdigest s.tarball s.pos s.upload o
        res tarball pos upload)
      (hw : Wires s.down s.up o res down up) :
      SessionStep s (.client o res)
        { s with tarball := tarball, pos := pos, upload := upload, up := up, down := down }
  | server {s o res fs thread up down}
      (hstep : Server.ThreadStep x.site s.fs s.thread o res fs thread)
      (hw : Wires s.up s.down o res up down) :
      SessionStep s (.server o res) { s with fs := fs, thread := thread, up := up, down := down }
  | cutUp {s} (k : Nat) : SessionStep s (.cutUp k) { s with up := s.up.cut k }
  | cutDown {s} (k : Nat) : SessionStep s (.cutDown k) { s with down := s.down.cut k }

variable {x} in
/-- The server receives the first `k` bytes that are under way. -/
theorem SessionStep.serverRecv {s : Session} {n : Int} (k : Nat)
    (ho : s.thread.op x.site = some (.recv n)) (hk : 0 < k) (hn : (k : Int) ≤ n)
    (hlen : k ≤ s.up.queue.length) :
    SessionStep x s (.server (.recv n) (.bytes (s.up.queue.take k)))
      { s with
        thread := s.thread.resume x.site (.bytes (s.up.queue.take k))
        up := { s.up with queue := s.up.queue.drop k } } := by
  have htake : (s.up.queue.take k).length = k := List.length_take_of_le hlen
  exact .server (.recv ho (by omega) (by omega)) (.recv (.some hk hn hlen))

variable {x} in
/-- The client receives the first `k` bytes that are under way. -/
theorem SessionStep.clientRecv {s : Session} {n : Int} (k : Nat)
    (ho : s.upload.op x.client.tarDir x.client.tarName x.site.hexdigest = some (.recv n))
    (hk : 0 < k) (hn : (k : Int) ≤ n) (hlen : k ≤ s.down.queue.length) :
    SessionStep x s (.client (.recv n) (.bytes (s.down.queue.take k)))
      { s with
        upload := s.upload.resume x.client.tarName x.site.hexdigest (.bytes (s.down.queue.take k))
        down := { s.down with queue := s.down.queue.drop k } } :=
  .client (.socket ho rfl (by simp)) (.recv (.some hk hn hlen))

/-- The start of an upload to a server with any files. -/
def Transfer.start (fs : Fs) : Session := { tarball := some x.content, fs := fs }

end CarFi.Uploader
