import CommonDrivers.Dvb.SwDemux.Reassembly
import CommonDrivers.Dvb.InputStream
import CommonDrivers.Dvb.DmcMemSafety
import CommonDrivers.Dvb.BufferRing
import CommonDrivers.Media.CanvasTable
import CommonDrivers.Media.CodecMm.UserProtocol
import CommonDrivers.Media.CodecMm.KeeperEntries
import CommonDrivers.Media.Hdmitx.EdidCapacity
import CommonDrivers.Mtd.RsvHandler
import CommonDrivers.Mtd.RsvCrash
import CommonDrivers.Unifykey.RoundTrip
import CommonDrivers.Media.DiMulti.QueueOrder
import CommonDrivers.Media.Dsc.RoundTrip
import CommonDrivers.Media.Avsync.Lifetime
import CommonDrivers.Media.Rdma.ConflictTable
import CommonDrivers.Dvb.TsOutput.PidSlots
import CommonDrivers.Dvb.SwDemux.SectionMatch
import CommonDrivers.Media.Vfm.ProviderLifetime
import CommonDrivers.Media.Vfm.Registry
import CommonDrivers.Media.Ge2d.QueueScan
import CommonDrivers.Media.ResourceMgr.Preemption
import CommonDrivers.Media.MediaProxy.Delivery
import CommonDrivers.Media.MediaProxy.Buffers
import CommonDrivers.Media.CanvasComplete
import CommonDrivers.Media.CodecMm.CacheRing
import CommonDrivers.Media.CodecMm.BulkAlloc
import CommonDrivers.Media.Hdmirx.EdidSpace
import CommonDrivers.Media.Hdmitx.DtdArithmetic
import CommonDrivers.Mtd.RsvRead
import CommonDrivers.Mtd.RsvBad
import CommonDrivers.Media.FrameSync.PtsAnswers
import CommonDrivers.Media.FrameSync.PtsPools
import CommonDrivers.Media.CodecMm.Owners
import CommonDrivers.Media.CodecMm.TvpSegments
import CommonDrivers.Dvb.SwDemux.Crc
import CommonDrivers.MemoryExt.CommonCaller
