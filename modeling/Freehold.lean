import Freehold.Lib.Runs
import Freehold.Lib.Aead
import Freehold.Lib.CrashLogic
import Freehold.Lib.Async
import Freehold.Lib.Takeover
import Freehold.VersionVector
import Freehold.VectorOrder
import Freehold.Crypto
import Freehold.Sync
import Freehold.SyncCursor
import Freehold.SyncHistory
import Freehold.Manifest
import Freehold.Pool
import Freehold.PoolWrites
import Freehold.Journal
import Freehold.OpenMainDb
import Freehold.OpenSpec
import Freehold.OpenAuthenticity
import Freehold.Rotation
import Freehold.RotationStaging
import Freehold.RotationRecovery
import Freehold.RotationMeaning
import Freehold.Envelope
import Freehold.Vault
import Freehold.VaultRotation
import Freehold.EnvelopeHistory
import Freehold.SyncConvergence
import Freehold.MetaStore
import Freehold.EnvelopeFloor
import Freehold.EnvelopeOverlap
import Freehold.UnlockRecords
import Freehold.SessionRegistry
import Freehold.Bundle
import Freehold.SealedRecords
import Freehold.SealedSurvival
import Freehold.ForkPreservation
import Freehold.SyncClaims
import Freehold.Lib.Cursor
import Freehold.SyncWire
import Freehold.BundleWire
import Freehold.Lib.Words
import Freehold.DeviceCert
import Freehold.SdkDeviceCert
import Freehold.EpochTokens
import Freehold.Lib.DoubleBuffer
import Freehold.AnchorSurvival
import Freehold.Lib.TokenBucket
import Freehold.Relay
import Freehold.Vfs
import Freehold.SlotBindings
import Freehold.CryptoWire
import Freehold.EnvelopeWire
import Freehold.SessionExport
import Freehold.Decrypt
import Freehold.ExportRecovery
import Freehold.RelayDelivery
import Freehold.CertExactness
import Freehold.JournalReplay
import Freehold.BlockDevice
import Freehold.DeviceVector
import Freehold.DeviceTamper
import Freehold.ImportAtomicity
import Freehold.BundleImport
import Freehold.CommitBarrier
import Freehold.VectorLattice
import Freehold.RelayAuth
import Freehold.DecryptAgreement
import Freehold.RecoveryCode
import Freehold.EnvelopeBytes
import Freehold.RecoveryUnlock
import Freehold.StateRoot
import Freehold.PoolSlots
import Freehold.ReplayBounds
import Freehold.TornManifest
import Freehold.Lib.Fields
import Freehold.Lib.Utf16
import Freehold.Lib.Json
import Freehold.Lib.Utf8
import Freehold.Lib.Simulation
import Freehold.PayloadWire
import Freehold.IntentWire
import Freehold.RecoverOutput
import Freehold.FilePages
import Freehold.Transactions
import Freehold.CommittedImages
import Freehold.VaultSessions
import Freehold.SyncedImages
import Freehold.BackupRestore
import Freehold.SqlRows
import Freehold.HttpRelay
import Freehold.Lib.Frames
import Freehold.Lib.Rpc
import Freehold.RelayStream
import Freehold.VaultRpc
import Freehold.GrantToken
