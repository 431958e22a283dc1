import OrbisKV.Persister.Replay
import OrbisKV.Persister.Discovery
import OrbisKV.Raft.Decoding
import OrbisKV.Raft.Replication
import OrbisKV.Raft.PersistedIndex
import OrbisKV.Raft.Acknowledged
import OrbisKV.KV.LeaseRead
import OrbisKV.KV.WalFidelity
import OrbisKV.KV.Cleanup
import OrbisKV.KV.Restart
import OrbisKV.KV.ApplyLoop
import OrbisKV.KV.Determinism
import OrbisKV.KV.Clerk
import OrbisKV.KV.Watch
import OrbisKV.KV.Locking
import OrbisKV.Sharding.ExecutePlan
import OrbisKV.Sharding.EntryTransfer
import OrbisKV.KV.Isolation
import OrbisKV.KV.Serializability
import OrbisKV.Persister.Worker
import OrbisKV.KV.WalRecovery
import OrbisKV.Storage.LoadSnapshot
import OrbisKV.Watch.Manager
import OrbisKV.KV.Expiry
import OrbisKV.KV.View
import OrbisKV.Sharding.ScanRoute
import OrbisKV.Sharding.Expansion
import OrbisKV.Storage.ExpiryHeap
import OrbisKV.Raft.MatchIndex
