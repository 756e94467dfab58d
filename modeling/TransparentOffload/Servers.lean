import TransparentOffload.Runtime

set_option autoImplicit false

/- The thread functions of the two servers the runtime is run under: a loop of one
request each, where the received and sent parts of `buf` are what the loops over
`read` and `write` count. -/
namespace TransparentOffload

/-- `REQ`. -/
def req : Nat := 4096

namespace ConnServer

/-- Where `conn_thread` of `conn_server` is, with its `fd` and the part of `buf`
that counts. -/
inductive Conn
  | reading (fd : Fd) (buf : Bytes)
  | encrypting (fd : Fd) (buf : Bytes)
  | writing (fd : Fd) (buf : Bytes) (put : Nat)
  | closing (fd : Fd)
  | returned
  deriving DecidableEq, Repr

/-- `if(r<=0) goto done; got+=r;` and the loop test. -/
def afterRead (fd : Fd) (buf : Bytes) : IoRet → Conn
  | .data bs =>
    if bs = [] then .closing fd
    else if (buf ++ bs).length < req then .reading fd (buf ++ bs)
    else .encrypting fd (buf ++ bs)
  | .count _ | .err _ => .closing fd

/-- `if(r<=0) goto done; put+=r;` and the loop test. -/
def afterWrite (fd : Fd) (buf : Bytes) (put : Nat) : IoRet → Conn
  | .count n =>
    if n = 0 then .closing fd
    else if put + n < req then .writing fd buf (put + n)
    else .reading fd []
  | .data _ | .err _ => .closing fd

def connThread : Conn → Call Conn Unit
  | .reading fd buf => .io (.read (req - buf.length)) fd (afterRead fd buf)
  | .encrypting fd buf => .accelEncrypt buf fun bs => .writing fd bs 0
  | .writing fd buf put => .io (.write (buf.drop put)) fd (afterWrite fd buf put)
  | .closing fd => .close fd .returned
  | .returned => .ret

/-- The argument of the thread is its descriptor. -/
def app : App Conn Unit := ⟨fun fd => .reading fd [], connThread⟩

/-- `conn_server` under the runtime. -/
def config (gEnforce : Bool) (ssl : SslSyms) (transform : Bytes → Bytes) : Config Conn Unit :=
  { app := app, gEnforce := gEnforce, gRealmutex := false, ssl := ssl, transform := transform }

/-- The descriptor the thread still uses. -/
def Conn.fd : Conn → Option Fd
  | .reading fd _ | .encrypting fd _ | .writing fd _ _ | .closing fd => some fd
  | .returned => none

@[simp] theorem afterRead_fd (fd : Fd) (buf : Bytes) (r : IoRet) :
    (afterRead fd buf r).fd = some fd := by
  unfold afterRead
  split
  · split
    · rfl
    · split <;> rfl
  · rfl
  · rfl

@[simp] theorem afterWrite_fd (fd : Fd) (buf : Bytes) (put : Nat) (r : IoRet) :
    (afterWrite fd buf put r).fd = some fd := by
  unfold afterWrite
  split
  · split
    · rfl
    · split <;> rfl
  · rfl
  · rfl

end ConnServer

namespace HostileServer

/-- The globals of `hostile_server`; `increments` counts the stores `shared=v+1`. -/
structure Shared where
  shared : Nat
  total : Nat
  increments : Nat
  deriving DecidableEq, Repr

/-- The page of `shared` and `total`. -/
def page : Nat := 0

def lk : MutexId := 0

/-- Where `conn` of `hostile_server` is; `v` is its copy of `shared`. -/
inductive Conn
  | reading (fd : Fd) (buf : Bytes)
  | locking (fd : Fd) (buf : Bytes)
  | loading (fd : Fd) (buf : Bytes)
  | encrypting (fd : Fd) (buf : Bytes) (v : Nat)
  | storing (fd : Fd) (buf : Bytes) (v : Nat)
  | unlocking (fd : Fd) (buf : Bytes)
  | counting (fd : Fd) (buf : Bytes)
  | writing (fd : Fd) (buf : Bytes) (put : Nat)
  | closing (fd : Fd)
  | returned
  deriving DecidableEq, Repr

def afterRead (locked : Bool) (fd : Fd) (buf : Bytes) : IoRet → Conn
  | .data bs =>
    if bs = [] then .closing fd
    else if (buf ++ bs).length < req then .reading fd (buf ++ bs)
    else if locked then .locking fd (buf ++ bs)
    else .loading fd (buf ++ bs)
  | .count _ | .err _ => .closing fd

def afterWrite (fd : Fd) (buf : Bytes) (put : Nat) : IoRet → Conn
  | .count n =>
    if n = 0 then .closing fd
    else if put + n < req then .writing fd buf (put + n)
    else .reading fd []
  | .data _ | .err _ => .closing fd

def conn (locked : Bool) : Conn → Call Conn Shared
  | .reading fd buf => .io (.read (req - buf.length)) fd (afterRead locked fd buf)
  | .locking fd buf => .mutexLock lk fun _ => .loading fd buf
  | .loading fd buf => .code [] fun m => (m, .encrypting fd buf m.shared)
  | .encrypting fd buf v => .accelEncrypt buf fun bs => .storing fd bs v
  | .storing fd buf v => .code [page] fun m =>
    ({ m with shared := v + 1, increments := m.increments + 1 },
      if locked then .unlocking fd buf else .counting fd buf)
  | .unlocking fd buf => .mutexUnlock lk fun _ => .counting fd buf
  | .counting fd buf => .code [page] fun m =>
    ({ m with total := m.total + 1 }, .writing fd buf 0)
  | .writing fd buf put => .io (.write (buf.drop put)) fd (afterWrite fd buf put)
  | .closing fd => .close fd .returned
  | .returned => .ret

/-- `hostile_server` with or without `LOCKED`. -/
def app (locked : Bool) : App Conn Shared := ⟨fun fd => .reading fd [], conn locked⟩

/-- `hostile_server` under the runtime, without libcrypto. -/
def config (locked gEnforce : Bool) (transform : Bytes → Bytes) : Config Conn Shared :=
  { app := app locked, gEnforce := gEnforce, gRealmutex := false, ssl := .absent
    transform := transform }

/-- The globals at the start of the server. -/
def Shared.init : Shared := ⟨0, 0, 0⟩

end HostileServer

end TransparentOffload
