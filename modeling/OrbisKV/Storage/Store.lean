import OrbisKV.KV.Api
/-!
# The Badger store of a node

Badger is a map from keys to bytes whose transactions take effect as a whole.
-/

namespace OrbisKV.KV

open Std

structure KVEntry where
  value : String
  version : UInt64
  expires : Int64
deriving DecidableEq, Repr

structure PreparedTxRecord where
  txID : String
  readKeys : List ReadKey
  writeKeys : List WriteKey
  preparedAt : Int64
  timeoutMs : Int64
  coordinatorGroupID : Int
  participantGroupIDs : List Int
deriving DecidableEq, Repr

structure TxDecisionRecord where
  decision : TxStatus
  participantGroupIDs : List Int
  writeKeys : List WriteKey
deriving DecidableEq, Repr

/-- The JSON documents that the program stores; `mark` is the literal `1`. -/
inductive Document
  | entry (e : KVEntry)
  | prepare (rec : PreparedTxRecord)
  | decision (rec : TxDecisionRecord)
  | mark
deriving DecidableEq, Repr

namespace Document

def toKV? : Document → Option KVEntry
  | entry e => some e
  | prepare _ => some ⟨"", 0, 0⟩
  | decision _ => some ⟨"", 0, 0⟩
  | mark => none

def toPrepared? : Document → Option PreparedTxRecord
  | entry _ => some ⟨"", [], [], 0, 0, 0, []⟩
  | prepare rec => some rec
  | decision rec => some ⟨"", [], rec.writeKeys, 0, 0, 0, rec.participantGroupIDs⟩
  | mark => none

def toDecision? : Document → Option TxDecisionRecord
  | entry _ => some ⟨.notFound, [], []⟩
  | prepare rec => some ⟨.notFound, rec.participantGroupIDs, rec.writeKeys⟩
  | decision rec => some rec
  | mark => none

end Document

/-- The errors of the store's own functions; callers only log their text. -/
inductive StoreError
  | undecodable (key : String)
  | notFound (key : String) (expected : UInt64)
  | versionMismatch (key : String) (expected got : UInt64)
  | notAbsent (key : String)
deriving DecidableEq, Repr

inductive PutCASStatus
  | ok
  | noKey
  | versionMismatch
deriving DecidableEq, Repr

structure WriteBatchOp where
  key : String
  value : String := ""
  expectedVersion : UInt64
  expires : Int64 := 0
  isDelete : Bool
deriving DecidableEq, Repr

def isExpired (expires now : Int64) : Bool := 0 < expires && expires ≤ now

def hasPrefix (s pre : String) : Bool := pre.toList.isPrefixOf s.toList

def txKeyPrefix : String := "_tx:"

def isUserKey (key : String) : Bool := !hasPrefix key txKeyPrefix

abbrev Store := ExtTreeMap String Document

namespace Store

/-- `Get`: the entry, or `none` where the key does not exist. -/
def get (s : Store) (key : String) : Except StoreError (Option KVEntry) :=
  match s[key]? with
  | none => .ok none
  | some raw =>
    match raw.toKV? with
    | none => .error (.undecodable key)
    | some entry => .ok (some entry)

def putFirst (s : Store) (key value : String) (expires : Int64) : Store :=
  s.insert key (.entry ⟨value, 1, expires⟩)

def putCASWithTTL (s : Store) (now : Int64) (key value : String) (expectedVersion : UInt64)
    (expires : Int64) : Except StoreError (Store × String × PutCASStatus) :=
  match s[key]? with
  | none =>
    if expectedVersion ≠ 0 then .ok (s, "", .noKey)
    else .ok (s.putFirst key value expires, "", .ok)
  | some raw =>
    match raw.toKV? with
    | none => .error (.undecodable key)
    | some cur =>
      if isExpired cur.expires now then
        if expectedVersion ≠ 0 then .ok (s, "", .noKey)
        else .ok (s.putFirst key value expires, "", .ok)
      else if cur.version ≠ expectedVersion then .ok (s, "", .versionMismatch)
      else .ok (s.insert key (.entry ⟨value, cur.version + 1, expires⟩), cur.value, .ok)

def writeOpWithCAS (s : Store) (op : WriteBatchOp) : Except StoreError Store :=
  match s[op.key]? with
  | none =>
    if op.expectedVersion ≠ 0 then .error (.notFound op.key op.expectedVersion)
    else if op.isDelete then .ok s
    else .ok (s.putFirst op.key op.value op.expires)
  | some raw =>
    match raw.toKV? with
    | none => .error (.undecodable op.key)
    | some cur =>
      if cur.version ≠ op.expectedVersion then
        .error (.versionMismatch op.key op.expectedVersion cur.version)
      else if op.isDelete then .ok (s.erase op.key)
      else .ok (s.insert op.key (.entry ⟨op.value, cur.version + 1, op.expires⟩))

/-- `writeBatchWithCASInTxn`: later operations see the writes of earlier ones. -/
def writeBatchWithCASInTxn (s : Store) : List WriteBatchOp → Except StoreError Store
  | [] => .ok s
  | op :: ops =>
    match s.writeOpWithCAS op with
    | .error e => .error e
    | .ok s' => s'.writeBatchWithCASInTxn ops

def writeBatchWithCAS (s : Store) (ops : List WriteBatchOp) : Except StoreError Store :=
  s.writeBatchWithCASInTxn ops

/-- `RollbackCASMutation`; `previous` is `none` where the key did not exist. -/
def rollbackCASMutation (s : Store) (key : String) (expectedCurrentVersion : UInt64)
    (previous : Option KVEntry) : Except StoreError Store :=
  let restored : Store :=
    match previous with
    | none => s.erase key
    | some entry => s.insert key (.entry entry)
  if expectedCurrentVersion = 0 then
    match s[key]? with
    | some _ => .error (.notAbsent key)
    | none => .ok restored
  else
    match s[key]? with
    | none => .error (.notFound key expectedCurrentVersion)
    | some raw =>
      match raw.toKV? with
      | none => .error (.undecodable key)
      | some current =>
        if current.version ≠ expectedCurrentVersion then
          .error (.versionMismatch key expectedCurrentVersion current.version)
        else .ok restored

def delete (s : Store) (key : String) : Store := s.erase key

def putTxRecord (s : Store) (txKey : String) (data : Document) : Store :=
  s.insert (txKeyPrefix ++ txKey) data

def getTxRecord (s : Store) (txKey : String) : Option Document := s[txKeyPrefix ++ txKey]?

def deleteTxRecord (s : Store) (txKey : String) : Store := s.erase (txKeyPrefix ++ txKey)

def writeBatchWithCASAndRecord (s : Store) (ops : List WriteBatchOp) (recordKey : String)
    (recordData : Document) : Except StoreError Store :=
  match s.writeBatchWithCASInTxn ops with
  | .error e => .error e
  | .ok s' => .ok (s'.putTxRecord recordKey recordData)

def scanTxRecordsByPrefix (s : Store) (subPrefix : String) : List (String × Document) :=
  s.toList.filter fun item => hasPrefix item.1 (txKeyPrefix ++ subPrefix)

/-- `ScanPrefix`: the first `limit` entries in key order that decode. -/
def scanPrefix (s : Store) (pre : String) (limit : Int) : List (String × KVEntry) :=
  let entries := (s.toList.filter fun item => hasPrefix item.1 pre).filterMap fun item =>
    item.2.toKV?.map fun entry => (item.1, entry)
  if 0 < limit then entries.take limit.toNat else entries

structure Envelope where
  kv : ExtTreeMap String KVEntry
  txRecords : ExtTreeMap String Document
deriving DecidableEq

def Envelope.collect (envelope : Envelope) (item : String × Document) :
    Except StoreError Envelope :=
  if hasPrefix item.1 txKeyPrefix then
    .ok { envelope with txRecords := envelope.txRecords.insert item.1 item.2 }
  else
    match item.2.toKV? with
    | none => .error (.undecodable item.1)
    | some entry => .ok { envelope with kv := envelope.kv.insert item.1 entry }

def saveSnapshot (s : Store) : Except StoreError Envelope :=
  s.toList.foldlM Envelope.collect ⟨∅, ∅⟩

/-- `LoadSnapshot`: a new database with the entries, then the transaction records. -/
def loadSnapshot (envelope : Envelope) : Store :=
  envelope.txRecords.toList.foldl (fun s item => s.insert item.1 item.2)
    (envelope.kv.toList.foldl (fun s item => s.insert item.1 (.entry item.2)) (∅ : Store))

end Store

end OrbisKV.KV
