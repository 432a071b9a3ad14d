import OcuduRan.Rlc.AmPduCodec
import OcuduRan.Rlc.AmStatusTrim
import OcuduRan.Rlc.AmTxRun
import OcuduRan.Pdcp.Peers
import OcuduRan.Pdcp.TxKeystream
import OcuduRan.Pdcp.TxOrder
import OcuduRan.Pdcp.TxDiscard
import OcuduRan.Mac.UlSchPdu
import OcuduRan.Mac.DlSchPdu
import OcuduRan.Asn1.Constraints
import OcuduRan.Asn1.ForwardCompat
import OcuduRan.Gtpu.HeaderCodec
import OcuduRan.Rlc.AmRxTimer
import OcuduRan.Rlc.AmTxPollCounters
import OcuduRan.CuCp.InactiveUes
import OcuduRan.CuCp.UpConsistency
import OcuduRan.CuCp.DrbIds
import OcuduRan.Ran.Sliv
import OcuduRan.Ran.VrbToPrb
import OcuduRan.Sched.PagingSlots
import OcuduRan.Sched.ResourceBlockGroup
import OcuduRan.Sched.DlBufferOccupancy
import OcuduRan.Sched.DrxController
import OcuduRan.Rlc.UmTx
import OcuduRan.Ofh.BfpCompression
import OcuduRan.Ofh.PrachWriter
import OcuduRan.Ofh.SymbolReorderer
import OcuduRan.F1u.CuUpDiscard
import OcuduRan.Support.TokenBucket
import OcuduRan.Support.LockfreeTokenBucket
import OcuduRan.Adt.TripleBuffer
import OcuduRan.Rlc.AmRxDelivery
