import VerusMiner.Lib.Store
import VerusMiner.Lib.Lanes
import VerusMiner.Lib.Digits
import VerusMiner.Lib.Hex
import VerusMiner.Lib.Runs
import VerusMiner.Lib.Ledger
import VerusMiner.Lib.Wakeup
import VerusMiner.Lib.Framing
import VerusMiner.Lib.CText
import VerusMiner.Lib.Enclosed
import VerusMiner.KeyRestore
import VerusMiner.ScanRefinement
import VerusMiner.Notify
import VerusMiner.Submit
import VerusMiner.MinerLoop
import VerusMiner.Adoption
import VerusMiner.Separation
import VerusMiner.Extranonce
import VerusMiner.Lib.Exchange
import VerusMiner.SelfWait
import VerusMiner.RequestService
import VerusMiner.RequestReply
import VerusMiner.ShareIds
import VerusMiner.Lib.LastEntry
import VerusMiner.HashLog
import VerusMiner.ShareDiff
import VerusMiner.ShareRecords
import VerusMiner.ExtranonceBounds
import VerusMiner.Lib.Utf8
import VerusMiner.Lib.JsonText
import VerusMiner.Lib.Rotation
import VerusMiner.SubmitLine
import VerusMiner.Restart
import VerusMiner.JobRace
import VerusMiner.LostRestart
import VerusMiner.Delivery
import VerusMiner.OwnPool
import VerusMiner.StaleShares
import VerusMiner.RecvLine
import VerusMiner.TextBounds
import VerusMiner.Authorization
import VerusMiner.PoolIndex
import VerusMiner.PoolSettings
import VerusMiner.ResolvedOptions
import VerusMiner.PoolArray
import VerusMiner.Reconnect
import VerusMiner.PoolRefinement
import VerusMiner.Lib.LinkedRing
import VerusMiner.ThreadQueue
import VerusMiner.Barrier
import VerusMiner.Midstate
import VerusMiner.Lib.BinaryPoly
import VerusMiner.Reduction
import VerusMiner.StoredTarget
import VerusMiner.CheckedKernel
import VerusMiner.SetTarget
import VerusMiner.ScanFrame
import VerusMiner.NonceRange
import VerusMiner.BlockingPop
import VerusMiner.RefusedSwitch
import VerusMiner.JobRecords
import VerusMiner.HexExact
import VerusMiner.Lib.Hysteresis
import VerusMiner.Conditional
import VerusMiner.Lib.Base64
import VerusMiner.Base64Encode
import VerusMiner.Lib.WsFrame
import VerusMiner.WebsocketReply
import VerusMiner.Lib.CMemory
import VerusMiner.RecvBuffer
import VerusMiner.AnswerTime
import VerusMiner.BenchmarkGate
import VerusMiner.Lib.Limbs
import VerusMiner.SecondExtranonce
import VerusMiner.Lib.Blocks
import VerusMiner.Subscription
import VerusMiner.JobMemory
import VerusMiner.TargetPairing
import VerusMiner.StratumDispatch
import VerusMiner.HttpExchange
import VerusMiner.JsonRpc
import VerusMiner.Lib.RetainedLog
import VerusMiner.ScanStats
import VerusMiner.Getwork
import VerusMiner.Longpoll
import VerusMiner.Handles
