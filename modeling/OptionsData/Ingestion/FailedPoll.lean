import OptionsData.Ingestion.TradePoller

namespace OptionsProof.TradePoller

open Kit OptionsModel

end OptionsProof.TradePoller
